import NodeFleet.Reclaimer.Machine

set_option autoImplicit false
namespace NodeFleet
namespace Reclaimer
namespace Machine

/-! ### Captures -/

/-- A capture begins on its own; the reclaimer does not wait for it. -/
def dispatchCapture (m : Machine) (pass : Option Nat) (sessionId : String) (completed : Bool) :
    Machine :=
  let m := m.record (.captured pass sessionId completed)
  { m with captures := m.captures + 1 }.enqueue (.capture m.captures sessionId completed)

def runCapture (s : Setup) (m : Machine) (number : Nat) (sessionId : String) (completed : Bool) :
    Machine :=
  match s.capture number with
  | .fails => m.note (.captureFailed sessionId completed)
  | _ => m

def measure (s : Setup) (m : Machine) (how : SessionEnd) (slot : SlotSession) : Machine :=
  (m.record (.counted (.ended s.proxy how))).record
    (.counted (.lasted s.proxy how (slot.elapsed s.now)))

/-! ### Operations -/

def completeSession (s : Setup) (m : Machine) (slot : SlotSession) : Machine :=
  if slot.sessionId ∈ m.terminal then m
  else
    let m := { m with terminal := m.terminal ++ [slot.sessionId] }
    let m := m.record (.completed slot.sessionId)
    let m := m.note (.sessionCompleted s.proxy slot.sessionId)
    (measure s m .completed slot).dispatchCapture none slot.sessionId true

def startPolling (s : Setup) (m : Machine) : Machine :=
  if (m.current.map m.isLive).getD false then m
  else
    let m := { m with phase := .polling }.note (.reclaimerStarted s.proxy)
    let id := m.tasks.length
    { m with tasks := m.tasks ++ [PollTask.new], current := some id }.enqueue (.task id)

def cancel (m : Machine) (id : Nat) : Machine :=
  let waiting := ((m.tasks[id]?).map fun t => t.life == .waiting).getD false
  let m := m.updateTask id fun t => { t with cancelled := true }
  if waiting ∧ .task id ∉ m.queue then m.enqueue (.task id) else m

/-- Stopping ends the poll task, if there is one, and waits for it while it holds the lock. -/
def beginStop (m : Machine) (o : Owner) (rest : List Frame) : Machine :=
  match m.current with
  | none => { m with phase := .stopped }.finish o .done rest
  | some id =>
    ({ m with current := none, locked := true }.cancel id).goOn o (.awaitEnd id :: rest)

def endStop (m : Machine) (o : Owner) (id : Nat) (rest : List Frame) : Machine :=
  let m := if m.hasFailed id then m.note .reclaimerFailed else m
  { m with phase := .stopped, locked := false }.finish o .done rest

def perform (s : Setup) (m : Machine) (o : Owner) (rest : List Frame) : Operation → Machine
  | .setSlots slots => { m with slots := slots }.finish o .done rest
  | .reclaim => m.goOn o (.poll :: rest)
  | .complete slot => (completeSession s m slot).finish o .done rest
  | .start => (startPolling s m).finish o .done rest
  | .stop => m.beginStop o rest
  | .phase => m.finish o (.phase m.phase) rest
  | .advance ms =>
    if ms = 0 then m.finish o .done rest else m.goOn o (.sleep (m.clock + ms) :: rest)

/-! ### Passes -/

def pollSlots (s : Setup) (m : Machine) (o : Owner) (rest : List Frame) : Machine :=
  let (claimed, terminal) := Reclaimer.poll s.threshold m.terminal m.slots
  let pass := m.passes
  let m := { m with terminal := terminal, passes := pass + 1 }.record
    (.polled pass o m.clock m.slots claimed)
  if claimed.isEmpty then (m.record (.passEnded pass 0)).finish o (.released 0) rest
  else
    { m with phase := .reclaiming }.goOn o
      (.releases pass claimed m.phase claimed.length :: rest)

def takeHook (slotId : String) : List Hook → Option (Hook × List Hook)
  | [] => none
  | h :: r =>
    if h.slotId = slotId then some (h, r)
    else (takeHook slotId r).map fun p => (p.1, h :: p.2)

/-- Releases one slot; a hook on it runs before its session's artifacts are captured. -/
def release (s : Setup) (m : Machine) (o : Owner) (pass : Nat) (slot : SlotSession)
    (rest : List Frame) : Machine :=
  let m := m.note (.releasing s.proxy slot.slotId slot.sessionId)
  let m := measure s m .reclaimed slot
  let m := m.record (.released pass slot .orphan m.phase m.slots)
  let m :=
    if s.removeOnRelease then
      { m with slots := m.slots.filter fun x => x.slotId ≠ slot.slotId }
    else m
  let rest := .capture pass slot.sessionId :: rest
  match takeHook slot.slotId m.hooks with
  | none => m.goOn o rest
  | some (hook, hooks) =>
    { m with hooks := hooks }.goOn o (.perform hook.operation :: .hookEnd :: rest)

/-- The phase before the pass comes back, unless it has changed meanwhile. -/
def endPass (m : Machine) (o : Owner) (pass : Nat) (previous : Phase) (count : Nat)
    (rest : List Frame) : Machine :=
  let m := if m.phase = .reclaiming then { m with phase := previous } else m
  (m.record (.passEnded pass count)).finish o (.released count) rest

def execute (s : Setup) (m : Machine) (o : Owner) (rest : List Frame) : Frame → Machine
  | .perform operation => perform s m o rest operation
  | .sleep _ => m.finish o .done rest
  | .awaitEnd id => m.endStop o id rest
  | .poll => pollSlots s m o rest
  | .releases pass [] previous count => m.endPass o pass previous count rest
  | .releases pass (slot :: left) previous count =>
    release s m o pass slot (.releases pass left previous count :: rest)
  | .hookEnd => (m.record (.hooked (m.fiber o).reply)).goOn o rest
  | .capture pass sessionId => (m.dispatchCapture (some pass) sessionId false).goOn o rest

/-! ### Poll tasks -/

def toleranceNanos : Nat := 5 * nanosPerMilli

/-- Ticks keep their distance from the beginning, but after a late one they start anew from now. -/
def nextDue (interval due now : Nat) : Nat :=
  if due + toleranceNanos < now then now + interval else due + interval

/-- Between two passes a task ends if it was told to, polls if a tick is due, or waits. -/
def nextTick (s : Setup) (m : Machine) (id : Nat) (t : PollTask) : Machine :=
  if t.cancelled then
    let m := (m.updateTask id fun t => { t with life := .ended }).pause
    { m with phase := .stopped }.note (.reclaimerStopped s.proxy)
  else if t.due ≤ m.clockNanos then
    let m := m.updateTask id fun t => { t with
      life := .busy, due := nextDue s.intervalNanos t.due m.clockNanos, fiber := ⟨[.poll], .done⟩ }
    { m with running := some (.task id) }
  else (m.updateTask id fun t => { t with life := .waiting }).pause

def beginTask (s : Setup) (m : Machine) (id : Nat) (t : PollTask) : Machine :=
  if s.intervalNanos = 0 then (m.updateTask id fun t => { t with life := .failed }).pause
  else
    let due := m.clockNanos
    nextTick s (m.updateTask id fun t => { t with due := due }) id { t with due := due }

def runTask (s : Setup) (m : Machine) (id : Nat) : Machine :=
  match m.tasks[id]? with
  | none => m
  | some t =>
    match t.life with
    | .fresh => beginTask s m id t
    | .waiting => nextTick s m id t
    | .busy => { m with running := some (.task id) }
    | .ended | .failed => m

def runJob (s : Setup) (m : Machine) : Job → Machine
  | .task id => runTask s m id
  | .capture number sessionId completed => runCapture s m number sessionId completed

/-! ### Time -/

def wakeTimes (m : Machine) : List Nat :=
  m.caller.wake?.toList ++ m.tasks.filterMap PollTask.wake?

def wakingTasks (m : Machine) (time : Nat) : List Job :=
  ((List.range m.tasks.length).filter fun id =>
    (((m.tasks[id]?).bind PollTask.wake?).map (decide <| · ≤ time)).getD false).map .task

/-- The clock moves on to the next time at which something wakes; the caller goes first. -/
def passTime (m : Machine) : Option Machine :=
  (m.wakeTimes.min?).map fun time =>
    let m := { m with clock := max m.clock time }
    let m := { m with queue := m.queue ++ m.wakingTasks time }
    if (m.caller.wake?.map (decide <| · ≤ time)).getD false then
      { m with running := some .caller }
    else m

/-! ### Scheduling -/

/-- The next thing to run when nothing does. The caller goes on once nothing else is ready. -/
def schedule (s : Setup) (m : Machine) : Option Machine :=
  match m.queue with
  | job :: r => some (runJob s { m with queue := r } job)
  | [] =>
    match m.caller.frames with
    | [] => none
    | f :: _ => if m.waits f then m.passTime else some { m with running := some .caller }

def stepOf (s : Setup) (m : Machine) (o : Owner) : Machine :=
  match (m.fiber o).frames with
  | f :: rest => if m.waits f then m.pause else execute s m o rest f
  | [] =>
    match o with
    | .caller => m.pause
    | .task id =>
      match m.tasks[id]? with
      | none => m.pause
      | some t => nextTick s m id t

def step (s : Setup) (m : Machine) : Option Machine :=
  match m.running with
  | some o => some (stepOf s m o)
  | none => schedule s m

end Machine
end Reclaimer
end NodeFleet
