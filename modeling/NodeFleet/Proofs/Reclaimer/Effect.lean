import NodeFleet.Proofs.Reclaimer.Run

set_option autoImplicit false
namespace NodeFleet
namespace Reclaimer
namespace Machine

section
variable (m : Machine) (o : Owner) (fb : Fiber)

@[simp] theorem setFiber_slots : (m.setFiber o fb).slots = m.slots := by cases o <;> rfl
@[simp] theorem setFiber_hooks : (m.setFiber o fb).hooks = m.hooks := by cases o <;> rfl
@[simp] theorem setFiber_phase : (m.setFiber o fb).phase = m.phase := by cases o <;> rfl
@[simp] theorem setFiber_terminal : (m.setFiber o fb).terminal = m.terminal := by cases o <;> rfl
@[simp] theorem setFiber_current : (m.setFiber o fb).current = m.current := by cases o <;> rfl
@[simp] theorem setFiber_locked : (m.setFiber o fb).locked = m.locked := by cases o <;> rfl
@[simp] theorem setFiber_running : (m.setFiber o fb).running = m.running := by cases o <;> rfl
@[simp] theorem setFiber_passes : (m.setFiber o fb).passes = m.passes := by cases o <;> rfl
@[simp] theorem setFiber_history : (m.setFiber o fb).history = m.history := by cases o <;> rfl
@[simp] theorem setFiber_clock : (m.setFiber o fb).clock = m.clock := by cases o <;> rfl
@[simp] theorem setFiber_queue : (m.setFiber o fb).queue = m.queue := by cases o <;> rfl

end

variable (s : Setup) (m : Machine) (o : Owner) (rest : List Frame)

def claimable : List SlotSession := (Reclaimer.poll s.threshold m.terminal m.slots).1

/-- Whether the poll task that stopping would end is alive. -/
def polls : Bool := (m.current.map m.isLive).getD false

def pushed : Frame → List Frame
  | .perform .reclaim => [.poll]
  | .perform .stop =>
    match m.current with
    | none => []
    | some id => [.awaitEnd id]
  | .perform (.advance ms) => if ms = 0 then [] else [.sleep (m.clock + ms)]
  | .poll =>
    if (m.claimable s).isEmpty then []
    else [.releases m.passes (m.claimable s) m.phase (m.claimable s).length]
  | .releases pass (slot :: left) previous count =>
    let after := [.capture pass slot.sessionId, .releases pass left previous count]
    match takeHook slot.slotId m.hooks with
    | none => after
    | some (hook, _) => .perform hook.operation :: .hookEnd :: after
  | _ => []

def measured (how : SessionEnd) (slot : SlotSession) : List Occurrence :=
  [.counted (.ended s.proxy how), .counted (.lasted s.proxy how (slot.elapsed s.now))]

def recorded : Frame → List Occurrence
  | .perform (.complete slot) =>
    if slot.sessionId ∈ m.terminal then []
    else
      .completed slot.sessionId :: .noted (.sessionCompleted s.proxy slot.sessionId) ::
        measured s .completed slot ++ [.captured none slot.sessionId true]
  | .perform .start => if m.polls then [] else [.noted (.reclaimerStarted s.proxy)]
  | .awaitEnd id => if m.hasFailed id then [.noted .reclaimerFailed] else []
  | .poll =>
    .polled m.passes o m.clock m.slots (m.claimable s) ::
      if (m.claimable s).isEmpty then [.passEnded m.passes 0] else []
  | .releases pass [] _ count => [.passEnded pass count]
  | .releases pass (slot :: _) _ _ =>
    .noted (.releasing s.proxy slot.slotId slot.sessionId) :: measured s .reclaimed slot ++
      [.released pass slot .orphan m.phase m.slots]
  | .hookEnd => [.hooked (m.fiber o).reply]
  | .capture pass sessionId => [.captured (some pass) sessionId false]
  | _ => []

def slotsAfter : Frame → List SlotSession
  | .perform (.setSlots slots) => slots
  | .releases _ (slot :: _) _ _ =>
    if s.removeOnRelease then m.slots.filter fun x => x.slotId ≠ slot.slotId else m.slots
  | _ => m.slots

def hooksAfter : Frame → List Hook
  | .releases _ (slot :: _) _ _ => ((takeHook slot.slotId m.hooks).map (·.2)).getD m.hooks
  | _ => m.hooks

def phaseAfter : Frame → Phase
  | .perform .start => if m.polls then m.phase else .polling
  | .perform .stop => if m.current.isNone then .stopped else m.phase
  | .awaitEnd _ => .stopped
  | .poll => if (m.claimable s).isEmpty then m.phase else .reclaiming
  | .releases _ [] previous _ => if m.phase = .reclaiming then previous else m.phase
  | _ => m.phase

def terminalAfter : Frame → SessionIds
  | .perform (.complete slot) =>
    if slot.sessionId ∈ m.terminal then m.terminal else m.terminal ++ [slot.sessionId]
  | .poll => (Reclaimer.poll s.threshold m.terminal m.slots).2
  | _ => m.terminal

def tasksAfter : Frame → List PollTask
  | .perform .start => if m.polls then m.tasks else m.tasks ++ [.new]
  | .perform .stop =>
    match m.current with
    | none => m.tasks
    | some id => m.tasks.modify id fun t => { t with cancelled := true }
  | _ => m.tasks

def currentAfter : Frame → Option Nat
  | .perform .start => if m.polls then m.current else some m.tasks.length
  | .perform .stop => none
  | _ => m.current

def lockedAfter : Frame → Bool
  | .perform .stop => if m.current.isNone then m.locked else true
  | .awaitEnd _ => false
  | _ => m.locked

def passesAfter : Frame → Nat
  | .poll => m.passes + 1
  | _ => m.passes

def capturesAfter : Frame → Nat
  | .perform (.complete slot) =>
    if slot.sessionId ∈ m.terminal then m.captures else m.captures + 1
  | .capture .. => m.captures + 1
  | _ => m.captures

def isWaiting (id : Nat) : Bool := ((m.tasks[id]?).map fun t => t.life == .waiting).getD false

def jobsMade : Frame → List Job
  | .perform (.complete slot) =>
    if slot.sessionId ∈ m.terminal then [] else [.capture m.captures slot.sessionId true]
  | .perform .start => if m.polls then [] else [.task m.tasks.length]
  | .perform .stop =>
    match m.current with
    | none => []
    | some id => if m.isWaiting id = true ∧ .task id ∉ m.queue then [.task id] else []
  | .capture _ sessionId => [.capture m.captures sessionId false]
  | _ => []

def replyAfter : Frame → Reply
  | .perform .reclaim => (m.fiber o).reply
  | .perform .stop => if m.current.isNone then .done else (m.fiber o).reply
  | .perform .phase => .phase m.phase
  | .perform (.advance ms) => if ms = 0 then .done else (m.fiber o).reply
  | .perform _ => .done
  | .sleep _ => .done
  | .awaitEnd _ => .done
  | .poll => if (m.claimable s).isEmpty then .released 0 else (m.fiber o).reply
  | .releases _ [] _ count => .released count
  | _ => (m.fiber o).reply

variable (f : Frame)

/-- All that a frame does apart from whose turn it is, the fiber still as it was. -/
def outcome (queue : List Job) : Machine :=
  { m with
    slots := m.slotsAfter s f
    hooks := m.hooksAfter f
    phase := m.phaseAfter s f
    terminal := m.terminalAfter s f
    tasks := m.tasksAfter f
    current := m.currentAfter f
    locked := m.lockedAfter f
    queue := queue
    passes := m.passesAfter f
    captures := m.capturesAfter f
    history := m.history ++ m.recorded s o f }

theorem cancel_eq (id : Nat) : m.cancel id = { m with
    tasks := m.tasks.modify id fun t => { t with cancelled := true }
    queue := m.queue ++
      if m.isWaiting id = true ∧ .task id ∉ m.queue then [.task id] else [] } := by
  have same : ((m.tasks[id]?).map fun t => t.life == .waiting).getD false = m.isWaiting id := rfl
  unfold cancel
  rw [same]
  by_cases h : m.isWaiting id = true ∧ .task id ∉ m.queue
  · simp [h, enqueue, updateTask]
  · simp [h, updateTask]

theorem fiber_modify (id : Nat) (g : PollTask → PollTask) (same : ∀ t, (g t).fiber = t.fiber) :
    fiber { m with tasks := m.tasks.modify id g } o = m.fiber o := by
  cases o with
  | caller => rfl
  | task j =>
    simp only [fiber, List.getElem?_modify]
    cases m.tasks[j]? with
    | none => rfl
    | some t => by_cases h : id = j <;> simp [h, same]

section
attribute [local simp] outcome pushed recorded slotsAfter hooksAfter phaseAfter terminalAfter
  tasksAfter currentAfter lockedAfter passesAfter capturesAfter jobsMade replyAfter finish goOn
  record note enqueue

theorem perform_exact (operation : Operation) : perform s m o rest operation =
    (m.outcome s o (.perform operation) (m.queue ++ m.jobsMade (.perform operation))).setFiber o
      ⟨m.pushed s (.perform operation) ++ rest, m.replyAfter s o (.perform operation)⟩ := by
  cases operation with
  | complete slot =>
    by_cases h : slot.sessionId ∈ m.terminal
    · simp [perform, completeSession, h]
    · simp [perform, completeSession, h, measure, measured, dispatchCapture]
  | start =>
    cases h : m.polls <;> rw [polls] at h <;> simp [perform, startPolling, polls, h]
  | stop =>
    cases h : m.current with
    | none => simp [perform, beginStop, h]
    | some id =>
      have kept := fiber_modify m o id (fun t => { t with cancelled := true }) fun _ => rfl
      simp [perform, beginStop, h, cancel_eq, isWaiting]
      exact congrArg (fun fb => setFiber _ o ⟨.awaitEnd id :: rest, Fiber.reply fb⟩) kept
  | advance ms => by_cases h : ms = 0 <;> simp [perform, h]
  | setSlots | reclaim | phase => simp [perform]

/-- What a frame does in all. -/
theorem execute_exact : execute s m o rest f =
    (m.outcome s o f (m.queue ++ m.jobsMade f)).setFiber o
      ⟨m.pushed s f ++ rest, m.replyAfter s o f⟩ := by
  cases f with
  | perform operation => exact perform_exact s m o rest operation
  | sleep wake => simp [execute]
  | awaitEnd id => cases h : m.hasFailed id <;> simp [execute, endStop, h]
  | poll =>
    by_cases h : (m.claimable s).isEmpty = true
    · rw [claimable] at h
      simp [execute, pollSlots, claimable, h]
    · rw [claimable] at h
      simp [execute, pollSlots, claimable, h]
      rfl
  | releases pass left previous count =>
    cases left with
    | nil => by_cases h : m.phase = .reclaiming <;> simp [execute, endPass, h]
    | cons slot left =>
      cases h : takeHook slot.slotId m.hooks <;> cases hr : s.removeOnRelease <;>
        simp [execute, release, measure, measured, h, hr] <;> rfl
  | hookEnd =>
    simp [execute]
    rfl
  | capture pass sessionId =>
    simp [execute, dispatchCapture]
    rfl

theorem execute_eq : ∃ queue reply, execute s m o rest f =
    (m.outcome s o f queue).setFiber o ⟨m.pushed s f ++ rest, reply⟩ :=
  ⟨_, _, execute_exact s m o rest f⟩

end

section
variable {s m o rest f}

theorem execute_history : (execute s m o rest f).history = m.history ++ m.recorded s o f := by
  obtain ⟨queue, reply, h⟩ := execute_eq s m o rest f
  simp [h, outcome]

theorem execute_slots : (execute s m o rest f).slots = m.slotsAfter s f := by
  obtain ⟨queue, reply, h⟩ := execute_eq s m o rest f
  simp [h, outcome]

theorem execute_hooks : (execute s m o rest f).hooks = m.hooksAfter f := by
  obtain ⟨queue, reply, h⟩ := execute_eq s m o rest f
  simp [h, outcome]

theorem execute_phase : (execute s m o rest f).phase = m.phaseAfter s f := by
  obtain ⟨queue, reply, h⟩ := execute_eq s m o rest f
  simp [h, outcome]

theorem execute_terminal : (execute s m o rest f).terminal = m.terminalAfter s f := by
  obtain ⟨queue, reply, h⟩ := execute_eq s m o rest f
  simp [h, outcome]

theorem execute_current : (execute s m o rest f).current = m.currentAfter f := by
  obtain ⟨queue, reply, h⟩ := execute_eq s m o rest f
  simp [h, outcome]

theorem execute_locked : (execute s m o rest f).locked = m.lockedAfter f := by
  obtain ⟨queue, reply, h⟩ := execute_eq s m o rest f
  simp [h, outcome]

theorem execute_running : (execute s m o rest f).running = m.running := by
  obtain ⟨queue, reply, h⟩ := execute_eq s m o rest f
  simp [h, outcome]

theorem execute_clock : (execute s m o rest f).clock = m.clock := by
  obtain ⟨queue, reply, h⟩ := execute_eq s m o rest f
  simp [h, outcome]

theorem execute_queue : (execute s m o rest f).queue = m.queue ++ m.jobsMade f := by
  simp [execute_exact, outcome]

theorem updateTask_get (id j : Nat) (g : PollTask → PollTask) :
    (m.updateTask id g).tasks[j]? = (m.tasks[j]?).map fun t => if id = j then g t else t := by
  simp [updateTask, List.getElem?_modify]

theorem setFiber_get (fb : Fiber) (j : Nat) : (m.setFiber o fb).tasks[j]? =
    (m.tasks[j]?).map fun t => if o = .task j then { t with fiber := fb } else t := by
  cases o with
  | caller => simp [setFiber]
  | task id => simp [setFiber, updateTask_get]

theorem fiber_setFiber_of_ne {o' : Owner} (fb : Fiber) (h : o' ≠ o) :
    (m.setFiber o fb).fiber o' = m.fiber o' := by
  cases o' with
  | caller =>
    cases o with
    | caller => exact absurd rfl h
    | task id => rfl
  | task j =>
    cases ht : m.tasks[j]? with
    | none => rw [fiber_of_no_task ht, fiber_of_no_task (by simp [setFiber_get, ht])]
    | some t =>
      rw [fiber_task j ht, fiber_task j (t := t) (by simp [setFiber_get, ht, h.symm])]

theorem fiber_setFiber_self (fb : Fiber) (h : (m.fiber o).frames ≠ []) :
    (m.setFiber o fb).fiber o = fb := by
  cases o with
  | caller => rfl
  | task j =>
    cases ht : m.tasks[j]? with
    | none =>
      rw [fiber_of_no_task ht] at h
      exact absurd rfl h
    | some t => rw [fiber_task j (t := { t with fiber := fb }) (by simp [setFiber_get, ht])]

theorem outcome_fiber (queue : List Job) (o' : Owner) :
    (m.outcome s o f queue).fiber o' = m.fiber o' := by
  cases o' with
  | caller => rfl
  | task j =>
    change (((m.tasksAfter f)[j]?).map (·.fiber)).getD .idle =
      ((m.tasks[j]?).map (·.fiber)).getD .idle
    unfold tasksAfter
    split
    · split
      · rfl
      · by_cases hj : j < m.tasks.length
        · rw [List.getElem?_append_left hj]
        · have none : m.tasks[j]? = none := List.getElem?_eq_none (by omega)
          rw [List.getElem?_append_right (by omega), none]
          cases j - m.tasks.length <;> rfl
    · split
      · rfl
      · rename_i id _
        rw [List.getElem?_modify]
        cases m.tasks[j]? with
        | none => rfl
        | some t => by_cases h : id = j <;> simp [h]
    · rfl

theorem execute_frames (h : (m.fiber o).frames = f :: rest) :
    ((execute s m o rest f).fiber o).frames = m.pushed s f ++ rest := by
  obtain ⟨queue, reply, he⟩ := execute_eq s m o rest f
  rw [he, fiber_setFiber_self]
  rw [outcome_fiber, h]
  exact List.cons_ne_nil f rest

theorem execute_fiber_of_ne {o' : Owner} (h : o' ≠ o) :
    (execute s m o rest f).fiber o' = m.fiber o' := by
  obtain ⟨queue, reply, he⟩ := execute_eq s m o rest f
  rw [he, fiber_setFiber_of_ne _ h, outcome_fiber]

variable (s m o rest f) in
theorem execute_get (j : Nat) : ∃ fb : Fiber, (execute s m o rest f).tasks[j]? =
    ((m.tasksAfter f)[j]?).map fun t => if o = .task j then { t with fiber := fb } else t := by
  obtain ⟨queue, reply, he⟩ := execute_eq s m o rest f
  exact ⟨_, by rw [he, setFiber_get]; rfl⟩

end

end Machine
end Reclaimer
end NodeFleet
