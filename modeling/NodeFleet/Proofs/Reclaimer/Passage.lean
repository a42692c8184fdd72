import Mathlib.Logic.Relation
import NodeFleet.Proofs.Reclaimer.History
import NodeFleet.Proofs.Reclaimer.Settling
/-!
Time that the caller lets pass. The background has no regard for the caller: its steps are the same
whatever the caller waits for. So it makes no difference whether the caller wakes in between, be it
when a tick is due, while a pass takes its time, or when nothing happens.
-/

set_option autoImplicit false
namespace NodeFleet
namespace Reclaimer
namespace Machine
variable {s : Setup} {m m' x e z : Machine} {id : Nat}

/-! ### Where steps lead -/

def Leads (s : Setup) : Machine → Machine → Prop :=
  Relation.ReflTransGen fun m m' => m.step s = some m'

theorem leads_run (s : Setup) (limit : Nat) (m : Machine) : Leads s m (run s limit m) := by
  induction limit generalizing m with
  | zero => exact .refl
  | succ limit ih =>
    rw [run]
    split
    · exact .refl
    · rename_i m' made
      exact .head made (ih m')

theorem step_unique : Relator.RightUnique fun m m' : Machine => m.step s = some m' := by
  intro m m' m'' made made'
  exact Option.some.inj (made.symm.trans made')

theorem Leads.eq_of_settled (leads : Leads s e z) (settled : e.step s = none) : z = e := by
  rcases leads.cases_head with rfl | ⟨m, made, -⟩
  · rfl
  · rw [settled] at made
    cases made

theorem Leads.onward (leads : Leads s m e) (settled : e.step s = none) (other : Leads s m z) :
    Leads s z e := by
  rcases leads.total_of_right_unique step_unique other with after | before
  · rw [Leads.eq_of_settled after settled]
    exact .refl
  · exact before

theorem Leads.unique (leads : Leads s m e) (settled : e.step s = none) (other : Leads s m z)
    (settled' : z.step s = none) : z = e :=
  ((leads.onward settled other).eq_of_settled settled').symm

/-! ### Another caller -/

def withCaller (m : Machine) (fb : Fiber) : Machine := { m with caller := fb }

theorem nextTick_withCaller (t : PollTask) (fb : Fiber) :
    nextTick s (m.withCaller fb) id t = (nextTick s m id t).withCaller fb := by
  have clock : (m.withCaller fb).clockNanos = m.clockNanos := rfl
  unfold nextTick
  rw [clock]
  split
  · rfl
  · split <;> rfl

theorem runJob_withCaller (j : Job) (fb : Fiber) :
    runJob s (m.withCaller fb) j = (runJob s m j).withCaller fb := by
  cases j with
  | capture number sessionId completed =>
    simp only [runJob, runCapture]
    split <;> rfl
  | task id =>
    have tasks : (m.withCaller fb).tasks = m.tasks := rfl
    simp only [runJob, runTask, tasks]
    split
    · rfl
    · rename_i t _
      split
      · simp only [beginTask]
        split
        · rfl
        · exact nextTick_withCaller (m := m.updateTask id fun t => { t with due := m.clockNanos })
            { t with due := m.clockNanos } fb
      · exact nextTick_withCaller t fb
      · rfl
      · rfl
      · rfl

theorem execute_withCaller (rest : List Frame) (f : Frame) (fb : Fiber) :
    execute s (m.withCaller fb) (.task id) rest f =
      (execute s m (.task id) rest f).withCaller fb := by
  rw [execute_exact, execute_exact]
  rfl

theorem stepOf_withCaller (fb : Fiber) :
    stepOf s (m.withCaller fb) (.task id) = (stepOf s m (.task id)).withCaller fb := by
  have fiber : (m.withCaller fb).fiber (.task id) = m.fiber (.task id) := rfl
  have tasks : (m.withCaller fb).tasks = m.tasks := rfl
  simp only [stepOf, fiber, tasks]
  split
  · rename_i f rest _
    have waits : (m.withCaller fb).waits f = m.waits f := rfl
    rw [waits]
    split
    · rfl
    · exact execute_withCaller rest f fb
  · split
    · rfl
    · exact nextTick_withCaller _ fb

/-! ### The background -/

/-- The turn is not the caller's. -/
def Elsewhere (m : Machine) : Prop :=
  (∃ id, m.running = some (.task id)) ∨ m.running = none ∧ m.queue ≠ []

theorem elsewhere_or (away : m.running ≠ some .caller) :
    m.Elsewhere ∨ m.running = none ∧ m.queue = [] := by
  cases running : m.running with
  | none =>
    by_cases queue : m.queue = []
    · exact .inr ⟨rfl, queue⟩
    · exact .inl (.inr ⟨running, queue⟩)
  | some o =>
    cases o with
    | caller => exact absurd running away
    | task id => exact .inl (.inl ⟨id, running⟩)

theorem nextTick_away (t : PollTask) : (nextTick s m id t).running ≠ some .caller := by
  unfold nextTick
  split
  · simp [note, record, pause]
  · split <;> simp [pause]

theorem stepOf_away (running : m.running = some (.task id)) :
    (stepOf s m (.task id)).running ≠ some .caller ∧ (stepOf s m (.task id)).clock = m.clock := by
  unfold stepOf
  split
  · split
    · exact ⟨by simp [pause], rfl⟩
    · rw [execute_running, execute_clock, running]
      exact ⟨by simp, rfl⟩
  · dsimp only
    split
    · exact ⟨by simp [pause], rfl⟩
    · rename_i t _
      obtain ⟨clock, -⟩ := nextTick_only s m id t
      exact ⟨nextTick_away t, clock⟩

theorem runJob_away (idle : m.running = none) (j : Job) :
    (runJob s m j).running ≠ some .caller ∧ (runJob s m j).clock = m.clock := by
  have still : m.running ≠ some .caller := by simp [idle]
  cases j with
  | capture number sessionId completed =>
    rw [runJob, runCapture]
    split <;> exact ⟨still, rfl⟩
  | task id =>
    obtain ⟨clock, -⟩ := runTask_only s m id
    refine ⟨?_, clock⟩
    rw [runJob, runTask]
    split
    · exact still
    · split
      · unfold beginTask
        split
        · simp [pause]
        · exact nextTick_away _
      · exact nextTick_away _
      · simp
      · exact still
      · exact still

theorem Elsewhere.step (elsewhere : m.Elsewhere) : ∃ m', m.step s = some m' ∧
    m'.caller = m.caller ∧ m'.clock = m.clock ∧ m'.running ≠ some .caller ∧
      ∀ fb, (m.withCaller fb).step s = some (m'.withCaller fb) := by
  rcases elsewhere with ⟨id, running⟩ | ⟨idle, queue⟩
  · obtain ⟨away, clock⟩ := stepOf_away (s := s) running
    have own : stepOf s (m.withCaller m.caller) (.task id) =
        (stepOf s m (.task id)).withCaller m.caller := stepOf_withCaller m.caller
    have same (fb : Fiber) : (m.withCaller fb).step s =
        some ((stepOf s m (.task id)).withCaller fb) := by
      have turn : (m.withCaller fb).running = some (.task id) := running
      rw [Machine.step, turn, ← stepOf_withCaller]
    exact ⟨stepOf s m (.task id), by rw [Machine.step, running],
      (congrArg Machine.caller own :), clock, away, same⟩
  · obtain ⟨j, r, jobs⟩ := List.exists_cons_of_ne_nil queue
    obtain ⟨away, clock⟩ := runJob_away (s := s) (m := { m with queue := r }) idle j
    have own : runJob s (withCaller { m with queue := r } m.caller) j =
        (runJob s { m with queue := r } j).withCaller m.caller := runJob_withCaller j m.caller
    have same (fb : Fiber) : (m.withCaller fb).step s =
        some ((runJob s { m with queue := r } j).withCaller fb) := by
      have turn : (m.withCaller fb).running = none := idle
      have ready : (m.withCaller fb).queue = j :: r := jobs
      rw [Machine.step, turn, ← runJob_withCaller]
      simp only [schedule, ready]
      rfl
    exact ⟨runJob s { m with queue := r } j, by simp only [Machine.step, idle, schedule, jobs],
      (congrArg Machine.caller own :), clock, away, same⟩

/-- While the caller has nothing to do no time passes, and the background does what it would do for
any caller. -/
theorem Leads.background (leads : Leads s m e) (settled : m.caller.frames = [])
    (away : m.running ≠ some .caller) : e.caller = m.caller ∧ e.clock = m.clock ∧
      ∀ fb, Leads s (m.withCaller fb) (e.withCaller fb) := by
  induction leads using Relation.ReflTransGen.head_induction_on with
  | refl => exact ⟨rfl, rfl, fun fb => .refl⟩
  | @head m m₁ made rest ih =>
    rcases elsewhere_or away with elsewhere | ⟨idle, queue⟩
    · obtain ⟨m', next, caller, clock, away', same⟩ := elsewhere.step (s := s)
      obtain rfl := Option.some.inj (next.symm.trans made)
      obtain ⟨caller', clock', leads⟩ := ih (by rw [caller, settled]) away'
      exact ⟨caller'.trans caller, clock'.trans clock, fun fb => .head (same fb) (leads fb)⟩
    · simp [Machine.step, idle, schedule, queue, settled] at made

/-! ### A caller that sleeps -/

def sleeping (wake : Nat) : Fiber := ⟨[.sleep wake], .done⟩

theorem passTime_of_least {time : Nat} (mem : time ∈ m.wakeTimes)
    (least : ∀ other ∈ m.wakeTimes, time ≤ other) : m.passTime = some { m with
      clock := max m.clock time
      queue := m.queue ++ m.wakingTasks time
      running := if (m.caller.wake?.map (decide <| · ≤ time)).getD false then some .caller
        else m.running } := by
  have first : m.wakeTimes.min? = some time := List.min?_eq_some_iff.mpr ⟨mem, least⟩
  rw [passTime, first, Option.map_some]
  dsimp only
  split <;> rfl

/-- If nobody wakes before a time, it does not matter that the clock has come to it. -/
theorem passTime_from {time : Nat} (early : m.clock ≤ time)
    (ahead : ∀ other ∈ m.wakeTimes, time ≤ other) :
    passTime { m with clock := time } = m.passTime := by
  have wakeTimes : wakeTimes { m with clock := time } = m.wakeTimes := rfl
  rw [passTime, passTime, wakeTimes]
  cases first : m.wakeTimes.min? with
  | none => rfl
  | some next =>
    have le := ahead next (List.min?_eq_some_iff.mp first).1
    have clock : max time next = max m.clock next := by omega
    simp only [Option.map_some, clock]

theorem step_sleeping {wake : Nat} (idle : m.running = none) (queue : m.queue = [])
    (caller : m.caller = sleeping wake) (early : m.clock < wake) : m.step s = m.passTime := by
  have waits : m.waits (.sleep wake) = true := by simp [Machine.waits, early]
  simp [Machine.step, idle, schedule, queue, caller, sleeping, waits]

theorem mem_wakeTimes_sleeping {wake time : Nat} (caller : m.caller = sleeping wake) :
    time ∈ m.wakeTimes ↔ time = wake ∨
      ∃ (id : Nat) (t : PollTask), m.tasks[id]? = some t ∧ t.wake? = some time := by
  rw [mem_wakeTimes, caller]
  simp [sleeping, Fiber.wake?, eq_comm]

theorem passTime_sleeping {wake : Nat} (idle : m.running = none)
    (caller : m.caller = sleeping wake) :
    ∃ time ∈ m.wakeTimes, (∀ other ∈ m.wakeTimes, time ≤ other) ∧
      time ≤ wake ∧ m.passTime = some { m with
        clock := max m.clock time
        queue := m.queue ++ m.wakingTasks time
        running := if wake ≤ time then some .caller else none } := by
  have any : m.wakeTimes ≠ [] :=
    List.ne_nil_of_mem ((mem_wakeTimes_sleeping caller).mpr (.inl rfl))
  obtain ⟨time, first⟩ := Option.isSome_iff_exists.mp (List.isSome_min?_of_ne_nil any)
  obtain ⟨mem, least⟩ := List.min?_eq_some_iff.mp first
  refine ⟨time, mem, least, least wake ((mem_wakeTimes_sleeping caller).mpr (.inl rfl)), ?_⟩
  rw [passTime_of_least mem least, idle]
  simp [caller, sleeping, Fiber.wake?]

theorem passTime_longer {wake later time : Nat} (idle : m.running = none)
    (caller : m.caller = sleeping wake) (lt : wake < later) (le : time ≤ wake)
    (least : ∀ other ∈ m.wakeTimes, time ≤ other)
    (wakes : ∃ (id : Nat) (t : PollTask), m.tasks[id]? = some t ∧ t.wake? = some time) :
    (m.withCaller (sleeping later)).passTime = some { m with
      clock := max m.clock time
      queue := m.queue ++ m.wakingTasks time
      caller := sleeping later
      running := none } := by
  have mem : time ∈ (m.withCaller (sleeping later)).wakeTimes :=
    (mem_wakeTimes_sleeping rfl).mpr (.inr wakes)
  have first : ∀ other ∈ (m.withCaller (sleeping later)).wakeTimes, time ≤ other := by
    intro other wakes
    rcases (mem_wakeTimes_sleeping rfl).mp wakes with rfl | task
    · omega
    · exact least other ((mem_wakeTimes_sleeping caller).mpr (.inr task))
  have asleep : ¬ later ≤ time := by omega
  rw [passTime_of_least mem first]
  simp only [withCaller, sleeping, Fiber.wake?, Option.map_some, Option.getD_some, asleep,
    decide_false, Bool.false_eq_true, if_false, idle]
  rfl

theorem wakingTasks_eq_nil {time : Nat} (least : ∀ other ∈ m.wakeTimes, time ≤ other)
    (still : ¬ ∃ (id : Nat) (t : PollTask), m.tasks[id]? = some t ∧ t.wake? = some time) :
    m.wakingTasks time = [] := by
  refine List.eq_nil_iff_forall_not_mem.mpr fun j mem => ?_
  obtain ⟨id, -, rfl⟩ := List.mem_map.mp mem
  obtain ⟨t, wake, found, wakes, le⟩ := mem_wakingTasks.mp mem
  have ge := least wake (mem_wakeTimes.mpr (.inr ⟨id, t, found, wakes⟩))
  obtain rfl : wake = time := by omega
  exact still ⟨id, t, found, wakes⟩

theorem leads_of_wake {wake : Nat} (running : m.running = some .caller)
    (caller : m.caller = sleeping wake) (clock : m.clock = wake) :
    Leads s m { m with caller := ⟨[], .done⟩, running := none } := by
  have wakes : m.step s = some (m.withCaller ⟨[], .done⟩) := by
    have waits : m.waits (.sleep wake) = false := by simp [Machine.waits, clock]
    simp only [Machine.step, running, stepOf, fiber, caller, sleeping, waits]
    rfl
  have rests : (m.withCaller ⟨[], .done⟩).step s =
      some { m with caller := ⟨[], .done⟩, running := none } := by
    simp only [Machine.step, withCaller, running, stepOf, fiber]
    rfl
  exact .head wakes (.head rests .refl)

theorem sleeps_past {wake later : Nat} (idle : x.running = none) (queue : x.queue = [])
    (caller : x.caller = sleeping wake) (early : x.clock < wake) (lt : wake < later)
    (least : ∀ other ∈ x.wakeTimes, wake ≤ other) :
    ∃ z, Leads s (x.withCaller (sleeping later)) z ∧
      Leads s { x.withCaller (sleeping later) with clock := wake } z := by
  have ahead : ∀ other ∈ (x.withCaller (sleeping later)).wakeTimes, wake ≤ other := by
    intro other wakes
    rcases (mem_wakeTimes_sleeping rfl).mp wakes with rfl | task
    · exact Nat.le_of_lt lt
    · exact least other ((mem_wakeTimes_sleeping caller).mpr (.inr task))
  obtain ⟨next, -, -, -, passes⟩ := passTime_sleeping (m := x.withCaller (sleeping later)) idle rfl
  have longer : (x.withCaller (sleeping later)).step s = (x.withCaller (sleeping later)).passTime :=
    step_sleeping idle queue rfl (Nat.lt_trans early lt)
  have again : step s { x.withCaller (sleeping later) with clock := wake } =
      (x.withCaller (sleeping later)).passTime := by
    refine Eq.trans ?_
      (passTime_from (m := x.withCaller (sleeping later)) (Nat.le_of_lt early) ahead)
    exact step_sleeping idle queue rfl lt
  exact ⟨_, .head (longer.trans passes) .refl, .head (again.trans passes) .refl⟩

/-- The caller wakes, and the tasks that wake with it would have woken without it. -/
theorem sleeps_on_here {wake later : Nat} (idle : x.running = none) (queue : x.queue = [])
    (caller : x.caller = sleeping wake) (early : x.clock < wake) (lt : wake < later)
    (least : ∀ other ∈ x.wakeTimes, wake ≤ other) (settled : e.step s = none)
    (woken : Leads s
      { x with clock := wake, queue := x.queue ++ x.wakingTasks wake, running := some .caller } e) :
    e.caller = ⟨[], .done⟩ ∧ e.clock = wake ∧
      ∃ z, Leads s (x.withCaller (sleeping later)) z ∧
        Leads s (e.withCaller (sleeping later)) z := by
  have free := Leads.onward woken settled (leads_of_wake rfl caller rfl)
  obtain ⟨ends, ending, onward⟩ := free.background rfl (by simp)
  refine ⟨ends, ending, ?_⟩
  by_cases wakes : ∃ (id : Nat) (t : PollTask), x.tasks[id]? = some t ∧ t.wake? = some wake
  · have clock : max x.clock wake = wake := Nat.max_eq_right (Nat.le_of_lt early)
    have longer : (x.withCaller (sleeping later)).step s =
        (x.withCaller (sleeping later)).passTime :=
      step_sleeping idle queue rfl (Nat.lt_trans early lt)
    refine ⟨_, .head ?_ (onward (sleeping later)), .refl⟩
    rw [longer, passTime_longer idle caller lt (Nat.le_refl wake) least wakes, clock]
    rfl
  · have same : e.withCaller (sleeping later) =
        { x.withCaller (sleeping later) with clock := wake } := by
      have quiet : x.queue ++ x.wakingTasks wake = [] := by
        rw [queue, wakingTasks_eq_nil least wakes, List.append_nil]
      rw [quiet] at free
      rw [Leads.eq_of_settled free rfl]
      simp only [withCaller, idle, queue]
    rw [same]
    exact sleeps_past idle queue caller early lt least

theorem sleeps_on {wake later : Nat} (leads : Leads s x e) (settled : e.step s = none)
    (caller : x.caller = sleeping wake) (early : x.clock < wake) (away : x.running ≠ some .caller)
    (lt : wake < later) : e.caller = ⟨[], .done⟩ ∧ e.clock = wake ∧
      ∃ z, Leads s (x.withCaller (sleeping later)) z ∧
        Leads s (e.withCaller (sleeping later)) z := by
  induction leads using Relation.ReflTransGen.head_induction_on with
  | refl =>
    rcases elsewhere_or away with elsewhere | ⟨idle, queue⟩
    · obtain ⟨m', next, -⟩ := elsewhere.step (s := s)
      rw [settled] at next
      cases next
    · obtain ⟨time, -, -, -, passes⟩ := passTime_sleeping idle caller
      rw [step_sleeping idle queue caller early, passes] at settled
      cases settled
  | @head x x₁ made rest ih =>
    -- the first step is somebody else's, or time passes to where a task or the caller wakes
    rcases elsewhere_or away with elsewhere | ⟨idle, queue⟩
    · obtain ⟨x', next, caller', clock, away', same⟩ := elsewhere.step (s := s)
      obtain rfl := Option.some.inj (next.symm.trans made)
      obtain ⟨ends, ending, z, before, after⟩ := ih (caller'.trans caller) (by rwa [clock]) away'
      exact ⟨ends, ending, z, .head (same _) before, after⟩
    obtain ⟨time, mem, least, le, passes⟩ := passTime_sleeping idle caller
    rw [step_sleeping idle queue caller early, passes] at made
    obtain rfl := Option.some.inj made
    have longer : (x.withCaller (sleeping later)).step s =
        (x.withCaller (sleeping later)).passTime :=
      step_sleeping idle queue rfl (Nat.lt_trans early lt)
    rcases Nat.lt_or_eq_of_le le with before | rfl
    · have wakes := ((mem_wakeTimes_sleeping caller).mp mem).resolve_left (Nat.ne_of_lt before)
      have asleep : ¬ wake ≤ time := by omega
      rw [if_neg asleep] at ih
      obtain ⟨ends, ending, z, first, second⟩ :=
        ih caller (Nat.max_lt.mpr ⟨early, before⟩) (by simp)
      refine ⟨ends, ending, z, .head ?_ first, second⟩
      rw [longer, passTime_longer idle caller lt le least wakes]
      rfl
    have clock : max x.clock time = time := Nat.max_eq_right (Nat.le_of_lt early)
    rw [if_pos (Nat.le_refl time), clock] at rest
    exact sleeps_on_here idle queue caller early lt least settled rest

/-! ### Advancing -/

theorem leads_advance {ms : Nat} (positive : ms ≠ 0) :
    Leads s (m.issue (.advance ms))
      { m with caller := sleeping (m.clock + ms), running := none } := by
  have sleeps : (m.issue (.advance ms)).step s =
      some { m with caller := sleeping (m.clock + ms), running := some .caller } := by
    simp [Machine.step, issue, stepOf, fiber, Machine.waits, execute, perform, positive, goOn,
      setFiber, sleeping]
  have rests : step s { m with caller := sleeping (m.clock + ms), running := some .caller } =
      some { m with caller := sleeping (m.clock + ms), running := none } := by
    have waits : m.clock < m.clock + ms := by omega
    simp [Machine.step, stepOf, fiber, sleeping, Machine.waits, waits, pause]
  exact .head sleeps (.head rests .refl)

theorem leads_advance_zero :
    Leads s (m.issue (.advance 0)) { m with caller := ⟨[], .done⟩, running := none } := by
  have ends : (m.issue (.advance 0)).step s =
      some { m with caller := ⟨[], .done⟩, running := some .caller } := rfl
  have rests : step s { m with caller := ⟨[], .done⟩, running := some .caller } =
      some { m with caller := ⟨[], .done⟩, running := none } := rfl
  exact .head ends (.head rests .refl)

theorem leads_operate (reached : Reachable s m) (idle : m.running = none)
    (settled : m.caller.frames = []) (operation : Operation) :
    Leads s (m.issue operation) (m.operate s operation) ∧ (m.operate s operation).step s = none :=
  ⟨leads_run s _ _, step_operate reached idle settled operation⟩

theorem advance_splits (reached : Reachable s m) (idle : m.running = none)
    (settled : m.caller.frames = []) (a : Nat) {later : Nat} (lt : m.clock + a < later) :
    (m.operate s (.advance a)).caller = ⟨[], .done⟩ ∧
      (m.operate s (.advance a)).clock = m.clock + a ∧
      ∃ z, Leads s { m with caller := sleeping later, running := none } z ∧
        Leads s ((m.operate s (.advance a)).withCaller (sleeping later)) z := by
  obtain ⟨leads, ends⟩ := leads_operate reached idle settled (.advance a)
  by_cases zero : a = 0
  · subst zero
    obtain ⟨caller, clock, onward⟩ :=
      (leads.onward ends leads_advance_zero).background rfl (by simp)
    exact ⟨caller, clock, _, onward (sleeping later), .refl⟩
  · exact sleeps_on (leads.onward ends (leads_advance zero)) ends rfl (by simp; omega) (by simp) lt

/-- Time is additive: to let time pass twice is to let it pass once, up to the machine that is left.
Nothing happens twice or not at all where the two meet, and each wait comes to its end. -/
theorem advance_add (reached : Reachable s m) (idle : m.running = none)
    (settled : m.caller.frames = []) (a b : Nat) :
    let first := m.operate s (.advance a)
    let second := first.operate s (.advance b)
    let once := m.operate s (.advance (a + b))
    second = once ∧ once.clock = m.clock + (a + b) ∧
      (report m first).reply = some .done ∧ (report first second).reply = some .done ∧
      (report m once).reply = some .done ∧
      (report m first).occurrences ++ (report first second).occurrences =
        (report m once).occurrences := by
  intro first second once
  have here : Reachable s first := reached.operate (.advance a) idle settled
  obtain ⟨there, ends⟩ := leads_operate reached idle settled (.advance (a + b))
  obtain ⟨woken, time, -⟩ := advance_splits reached idle settled a (Nat.lt_succ_self _)
  obtain ⟨wokenOnce, timeOnce, -⟩ :=
    advance_splits reached idle settled (a + b) (Nat.lt_succ_self _)
  have rests : first.running = none :=
    (rests_of_settled (leads_operate reached idle settled (.advance a)).2).1
  have free : first.caller.frames = [] := by rw [woken]
  obtain ⟨after, ends'⟩ := leads_operate here rests free (.advance b)
  have same : second = once := by
    by_cases zero : b = 0
    · subst zero
      have back : { first with caller := ⟨[], .done⟩, running := none } = first := by
        rw [← woken, ← rests]
      have stays : Leads s (first.issue (.advance 0)) first := back ▸ leads_advance_zero
      exact stays.unique (leads_operate reached idle settled (.advance a)).2 after ends'
    · have lt : m.clock + a < m.clock + (a + b) := by omega
      obtain ⟨-, -, z, longer, again⟩ := advance_splits reached idle settled a lt
      have through : Leads s z once :=
        (there.onward ends (leads_advance (by omega))).onward ends longer
      have back : { first with caller := sleeping (first.clock + b), running := none } =
          first.withCaller (sleeping (m.clock + (a + b))) := by
        rw [withCaller, rests, time, Nat.add_assoc]
      have through' : Leads s z second :=
        (after.onward ends' (back ▸ leads_advance zero)).onward ends' again
      exact through.unique ends through' ends'
  refine ⟨same, timeOnce, ?_, ?_, ?_, ?_⟩
  · simp [report, isSettled, first, woken]
  · simp [report, isSettled, same, once, wokenOnce]
  · simp [report, isSettled, once, wokenOnce]
  · obtain ⟨past, run⟩ := reached
    obtain ⟨⟨new, grown⟩, tidy⟩ := operate_history (s := s) (Tidy.reached run) (.advance a)
    obtain ⟨⟨more, grown'⟩, -⟩ := operate_history (s := s) tidy (.advance b)
    have all : once.history = m.history ++ (new ++ more) := by
      rw [← same, ← List.append_assoc, grown, grown']
    simp only [report]
    rw [all, same, all, ← grown, List.drop_left, List.drop_left, ← List.append_assoc,
      List.drop_left]

def suspendedPass : List Machine × Machine :=
  let before := new [plainSlot "a" 100] [⟨"a", .advance 7000⟩]
  trail .plain 16 [before] (before.issue .start)

theorem advance_add_suspended :
    Run .plain suspendedPass.1 suspendedPass.2 ∧ suspendedPass.2.phase = .reclaiming ∧
      let first := suspendedPass.2.operate .plain (.advance 5000)
      first.operate .plain (.advance 7000) = suspendedPass.2.operate .plain (.advance 12000) ∧
        first.phase = .reclaiming ∧ (first.operate .plain (.advance 7000)).passes = 3 := by
  have start : Run .plain suspendedPass.1 suspendedPass.2 :=
    ((Run.new [plainSlot "a" 100] [⟨"a", .advance 7000⟩]).issue .start rfl rfl).trail 16
  refine ⟨start, by decide +kernel, (advance_add ⟨_, start⟩ (by decide +kernel) ?_ 5000 7000).1,
    by decide +kernel, by decide +kernel⟩
  exact List.isEmpty_iff.mp (by decide +kernel)

end Machine
end Reclaimer
end NodeFleet
