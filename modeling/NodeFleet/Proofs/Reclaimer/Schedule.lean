import NodeFleet.Proofs.Reclaimer.Passage
/-!
When the poll task polls. As long as hooks neither let time pass nor start or stop the reclaimer a
pass takes no time, so no tick is late: from its start until it is told to end, a task polls at the
start and then once every interval, whatever the caller does meanwhile.
-/

set_option autoImplicit false
namespace NodeFleet
namespace Reclaimer

/-- Neither lets time pass nor starts or stops the reclaimer. -/
def Operation.isCalm : Operation → Bool
  | .advance ms => ms == 0
  | .start | .stop => false
  | .setSlots _ | .reclaim | .complete _ | .phase => true

def Frame.isCalm : Frame → Bool
  | .perform operation => operation.isCalm
  | .sleep _ | .awaitEnd _ => false
  | .poll | .releases .. | .hookEnd | .capture .. => true

def Frame.isStop : Frame → Bool
  | .perform .stop => true
  | _ => false

def Frame.isReleases : Frame → Bool
  | .releases .. => true
  | _ => false

structure InPass (frames : List Frame) : Prop where
  calm : ∀ f ∈ frames, f.isCalm = true
  last : ∀ f ∈ frames.getLast?, f.isReleases = true

theorem InPass.ne_poll {frames : List Frame} (inPass : InPass frames) : frames ≠ [.poll] := by
  rintro rfl
  cases inPass.last .poll rfl

namespace Machine

def CalmHooks (m : Machine) : Prop := ∀ h ∈ m.hooks, h.operation.isCalm = true

/-- The next step begins a stop. -/
def StopBegins (m : Machine) : Prop := m.next? = some (.perform .stop) ∧ m.locked = false

/-- The poll task that polls in the next step because a tick is due, and the time. A pass that a
hook asks for during a release is not due to a tick. -/
def tickPoll? (m : Machine) : Option (Nat × Nat) :=
  match m.running with
  | some (.task id) =>
    match (m.fiber (.task id)).frames with
    | [.poll] => some (id, m.clock)
    | _ => none
  | _ => none

end Machine

def tickPolls (machines : List Machine) : List (Nat × Nat) :=
  (machines.filterMap Machine.tickPoll?).reverse

theorem tickPolls_cons (m : Machine) (machines : List Machine) :
    tickPolls (m :: machines) = tickPolls machines ++ m.tickPoll?.toList := by
  rw [tickPolls, List.filterMap_cons]
  cases m.tickPoll? with
  | none => simp [tickPolls]
  | some poll => simp [tickPolls]

namespace Machine
variable {s : Setup} {m m' x : Machine} {o : Owner} {f : Frame} {rest : List Frame}
  {past newer older : List Machine} {id k n time first : Nat} {t t' : PollTask}

theorem next?_stop_iff : m.next?.any Frame.isStop = true ↔ m.next? = some (.perform .stop) :=
  next?_any_iff fun g => by
    unfold Frame.isStop
    split
    · simp
    · rename_i other
      simpa using other

instance (m : Machine) : Decidable m.StopBegins :=
  decidable_of_iff (m.next?.any Frame.isStop = true ∧ m.locked = false)
    (and_congr_left fun _ => next?_stop_iff)

theorem tickPoll?_eq_some : m.tickPoll? = some (id, time) ↔
    m.running = some (.task id) ∧ (m.fiber (.task id)).frames = [.poll] ∧ m.clock = time := by
  unfold tickPoll?
  split
  · rename_i k running
    rw [running]
    split
    · rename_i frames
      simp only [Option.some.injEq, Prod.mk.injEq, Owner.task.injEq]
      constructor
      · rintro ⟨rfl, same⟩
        exact ⟨rfl, frames, same⟩
      · rintro ⟨rfl, -, same⟩
        exact ⟨rfl, same⟩
    · rename_i other
      simp only [reduceCtorEq, Option.some.injEq, Owner.task.injEq, false_iff]
      rintro ⟨rfl, frames, -⟩
      exact other frames
  · rename_i other
    simp only [reduceCtorEq, false_iff]
    rintro ⟨running, -⟩
    exact other id running

theorem tickPoll?_eq_none (h : ∀ id, m.running = some (.task id) →
    (m.fiber (.task id)).frames ≠ [.poll]) : m.tickPoll? = none := by
  cases polls : m.tickPoll? with
  | none => rfl
  | some poll =>
    obtain ⟨running, frames, -⟩ := tickPoll?_eq_some.mp polls
    exact absurd frames (h poll.1 running)

theorem polled_of_tickPoll (run : Run s past m) (mem : x ∈ past)
    (polls : x.tickPoll? = some (id, time)) :
    .polled x.passes (.task id) time x.slots (x.claimable s) ∈ m.history := by
  obtain ⟨running, frames, rfl⟩ := tickPoll?_eq_some.mp polls
  induction run with
  | new slots hooks => cases mem
  | issue operation run idle settled ih =>
    rcases List.mem_cons.mp mem with rfl | mem
    · rw [idle] at running
      cases running
    · exact ih mem
  | step run made ih =>
    rcases List.mem_cons.mp mem with rfl | mem
    · obtain rfl := Option.some.inj (made.symm.trans (step_of_ready running frames rfl))
      rw [execute_history]
      exact List.mem_append_right _ (by simp [recorded])
    · obtain ⟨new, grown, -⟩ := step_history (Tidy.reached run) made
      rw [grown]
      exact List.mem_append_left _ (ih mem)

theorem polled_of_follows {pass : Nat} {owner : Owner} {listed claimed : List SlotSession}
    (follows : Follows s m m') (tidy : m.Tidy)
    (polled : .polled pass owner time listed claimed ∈ m'.history) :
    .polled pass owner time listed claimed ∈ m.history ∨
      m.running = some owner ∧ m.clock = time := by
  cases follows with
  | issue operation idle settled => exact .inl polled
  | step made =>
    obtain ⟨new, grown, made⟩ := step_history tidy made
    rw [grown] at polled
    refine (List.mem_append.mp polled).imp_right fun polled => ?_
    obtain ⟨o, f, rest, running, -, -, -, rfl⟩ | ⟨-, notes, rfl⟩ := made
    · obtain ⟨-, -, rfl, rfl, -⟩ := polled_of_mem_recorded polled
      exact ⟨running, rfl⟩
    · simp at polled

/-! ### Calm hooks -/

theorem hooksAfter_subset (m : Machine) (f : Frame) : m.hooksAfter f ⊆ m.hooks := by
  unfold hooksAfter
  split
  · rename_i slot left _ _
    cases taken : takeHook slot.slotId m.hooks with
    | none => exact fun h mem => mem
    | some found => exact fun h mem => (takeHook_perm taken).mem_iff.mpr (.tail _ mem)
  · exact fun h mem => mem

theorem CalmHooks.of_eq (calm : m.CalmHooks) (same : m'.hooks = m.hooks) : m'.CalmHooks := by
  rw [CalmHooks, same]
  exact calm

theorem CalmHooks.execute (calm : m.CalmHooks) : (execute s m o rest f).CalmHooks := by
  rw [CalmHooks, execute_hooks]
  exact fun h mem => calm h (hooksAfter_subset m f mem)

theorem waits_of_calm (calm : f.isCalm = true) : m.waits f = false := by
  cases f with
  | perform operation =>
    cases operation with
    | start | stop => cases calm
    | setSlots | reclaim | complete | phase | advance => rfl
  | sleep | awaitEnd => cases calm
  | poll | releases | hookEnd | capture => rfl

theorem calm_pushed (hooks : m.CalmHooks) (calm : f.isCalm = true) :
    ∀ g ∈ m.pushed s f, g.isCalm = true := by
  cases f with
  | perform operation =>
    cases operation with
    | start | stop => cases calm
    | advance ms =>
      have zero : ms = 0 := by simpa [Frame.isCalm, Operation.isCalm] using calm
      simp [pushed, zero]
    | setSlots | reclaim | complete | phase => simp [pushed, Frame.isCalm]
  | poll =>
    simp only [pushed]
    split <;> simp [Frame.isCalm]
  | releases pass left previous count =>
    cases left with
    | nil => simp [pushed]
    | cons slot left =>
      cases taken : takeHook slot.slotId m.hooks with
      | none => simp [pushed, taken, Frame.isCalm]
      | some found =>
        have first : found.1.operation.isCalm = true :=
          hooks found.1 ((takeHook_perm taken).mem_iff.mpr List.mem_cons_self)
        simp [pushed, taken, Frame.isCalm, first]
  | sleep | awaitEnd => cases calm
  | hookEnd | capture => simp [pushed]

theorem last_pushed (last : f = .poll ∨ f.isReleases = true) :
    ∀ g ∈ (m.pushed s f).getLast?, g.isReleases = true := by
  rcases last with rfl | releases
  · simp only [pushed]
    split <;> simp [Frame.isReleases]
  · cases f with
    | releases pass left previous count =>
      cases left with
      | nil => simp [pushed]
      | cons slot left =>
        cases taken : takeHook slot.slotId m.hooks <;> simp [pushed, taken, Frame.isReleases]
    | _ => cases releases

theorem inPass_pushed (hooks : m.CalmHooks) (inPass : InPass (f :: rest)) :
    InPass (m.pushed s f ++ rest) := by
  obtain ⟨calm, last⟩ := inPass
  refine ⟨fun g mem => ?_, ?_⟩
  · rcases List.mem_append.mp mem with mem | mem
    · exact calm_pushed hooks (calm f List.mem_cons_self) g mem
    · exact calm g (.tail f mem)
  · cases rest with
    | nil =>
      rw [List.append_nil]
      exact last_pushed (.inr (last f rfl))
    | cons g more =>
      rw [List.getLast?_append_cons]
      exact fun h mem => last h (by rw [List.getLast?_cons_cons]; exact mem)

/-! ### The pace -/

/-- A task that has polled `n` times since it started, and polls next `n` intervals of `k`
milliseconds after that. -/
inductive Pace (m : Machine) (id first k : Nat) (t : PollTask) : Nat → Prop
  | fresh (life : t.life = .fresh) (clock : m.clock = first) (ready : .task id ∈ m.queue) :
      Pace m id first k t 0
  | polls (n : Nat) (life : t.life = .busy) (running : m.running = some (.task id))
      (frames : t.fiber.frames = [.poll]) (clock : m.clock = first + n * k)
      (due : t.due = (first + (n + 1) * k) * nanosPerMilli) : Pace m id first k t n
  | passes (n : Nat) (life : t.life = .busy) (running : m.running = some (.task id))
      (frames : InPass t.fiber.frames) (clock : m.clock = first + n * k)
      (due : t.due = (first + (n + 1) * k) * nanosPerMilli) : Pace m id first k t (n + 1)
  | waits (n : Nat) (life : t.life = .waiting)
      (due : t.due = (first + (n + 1) * k) * nanosPerMilli) (after : first + n * k ≤ m.clock)
      (before : m.clock ≤ first + (n + 1) * k)
      (ready : m.clock = first + (n + 1) * k → .task id ∈ m.queue) : Pace m id first k t (n + 1)

structure OnPace (m : Machine) (id first k n : Nat) : Prop where
  hooks : m.CalmHooks
  turn : ∃ t, m.tasks[id]? = some t ∧ t.cancelled = false ∧ Pace m id first k t n

theorem Pace.live (pace : Pace m id first k t n) : t.life.isLive = true := by
  cases pace with
  | fresh life | polls _ life | passes _ life | waits _ life => rw [life]; rfl

theorem Pace.of_busy (pace : Pace m id first k t n) (busy : t.life = .busy) :
    m.running = some (.task id) ∧
      (t.fiber.frames = [.poll] ∧ m.clock = first + n * k ∧
          t.due = (first + (n + 1) * k) * nanosPerMilli ∨
        ∃ j, n = j + 1 ∧ InPass t.fiber.frames ∧ m.clock = first + j * k ∧
          t.due = (first + (j + 1) * k) * nanosPerMilli) := by
  cases pace with
  | fresh life => cases life.symm.trans busy
  | waits n life => cases life.symm.trans busy
  | polls n life running frames clock due => exact ⟨running, .inl ⟨frames, clock, due⟩⟩
  | passes n life running frames clock due => exact ⟨running, .inr ⟨n, rfl, frames, clock, due⟩⟩

theorem Pace.of_rest (pace : Pace m id first k t n) (idle : m.running = none)
    (queue : m.queue = []) : ∃ j, n = j + 1 ∧ t.life = .waiting ∧
      t.due = (first + (j + 1) * k) * nanosPerMilli ∧ first + j * k ≤ m.clock ∧
        m.clock < first + (j + 1) * k := by
  cases pace with
  | fresh life clock ready =>
    rw [queue] at ready
    cases ready
  | polls n life running => cases idle.symm.trans running
  | passes n life running => cases idle.symm.trans running
  | waits n life due after before ready =>
    refine ⟨n, rfl, life, due, after, Nat.lt_of_le_of_ne before fun now => ?_⟩
    rw [queue] at ready
    cases ready now

theorem Pace.calm (pace : Pace m id first k t n) (busy : t.life = .busy) :
    ∀ f ∈ t.fiber.frames, f.isCalm = true := by
  obtain ⟨-, ⟨frames, -⟩ | ⟨j, -, inPass, -⟩⟩ := pace.of_busy busy
  · simp [frames, Frame.isCalm]
  · exact inPass.calm

theorem OnPace.live (pace : OnPace m id first k n) : m.isLive id = true := by
  obtain ⟨-, t, found, -, pace⟩ := pace
  rw [isLive_eq found, pace.live]

theorem Pace.still (pace : Pace m id first k t n) (other : m.running ≠ some (.task id))
    (life : t'.life = t.life) (due : t'.due = t.due) (clock : m'.clock = m.clock)
    (queue : .task id ∈ m.queue → .task id ∈ m'.queue) : Pace m' id first k t' n := by
  cases pace with
  | fresh fresh start ready => exact .fresh (life.trans fresh) (clock.trans start) (queue ready)
  | polls n busy running => exact absurd running other
  | passes n busy running => exact absurd running other
  | waits n waiting next after before ready =>
    rw [← clock] at after before ready
    exact .waits n (life.trans waiting) (due.trans next) after before fun now => queue (ready now)

theorem OnPace.still (pace : OnPace m id first k n) (other : m.running ≠ some (.task id))
    (hooks : m'.hooks = m.hooks) (task : m'.tasks[id]? = m.tasks[id]?) (clock : m'.clock = m.clock)
    (queue : .task id ∈ m.queue → .task id ∈ m'.queue) : OnPace m' id first k n := by
  obtain ⟨calm, t, found, free, pace⟩ := pace
  exact ⟨calm.of_eq hooks, t, task.trans found, free, pace.still other rfl rfl clock queue⟩

theorem onPace_of_due (interval : s.intervalNanos = k * nanosPerMilli) (hooks : m.CalmHooks)
    (found : m.tasks[id]? = some t) (free : t.cancelled = false) (clock : m.clock = first + n * k)
    (due : t.due = m.clockNanos) : OnPace (nextTick s m id t) id first k n := by
  obtain ⟨same, -, -⟩ := nextTick_only s m id t
  obtain ⟨running, here⟩ := nextTick_of_due found free (Nat.le_of_eq due) (s := s)
  refine ⟨hooks.of_eq (nextTick_aside id t).hooks, _, here, free,
    .polls n rfl running rfl (same.trans clock) ?_⟩
  change nextDue s.intervalNanos t.due m.clockNanos = _
  rw [nextDue, if_neg (by omega), due, clockNanos, clock, interval, ← Nat.add_mul, Nat.add_assoc,
    Nat.succ_mul]

theorem onPace_of_early (hooks : m.CalmHooks) (found : m.tasks[id]? = some t)
    (free : t.cancelled = false) (due : t.due = (first + (n + 1) * k) * nanosPerMilli)
    (after : first + n * k ≤ m.clock) (early : m.clock < first + (n + 1) * k) :
    OnPace (nextTick s m id t) id first k (n + 1) := by
  obtain ⟨same, -, -⟩ := nextTick_only s m id t
  have later : m.clockNanos < t.due := by
    rw [due, clockNanos]
    exact Nat.mul_lt_mul_of_pos_right early (by decide)
  refine ⟨hooks.of_eq (nextTick_aside id t).hooks, _,
    nextTick_of_early found free later, free, .waits n rfl due ?_ ?_ fun now => ?_⟩
  · rwa [same]
  · rw [same]
    exact Nat.le_of_lt early
  · rw [same] at now
    exact absurd now (Nat.ne_of_lt early)

/-! ### What a step does to the pace -/

theorem OnPace.execute_caller (pace : OnPace m id first k n) (running : m.running = some .caller)
    (frames : (m.fiber .caller).frames = f :: rest) (waits : m.waits f = false)
    (unstopped : ¬ m.StopBegins) : OnPace (execute s m .caller rest f) id first k n := by
  obtain ⟨hooks, t, found, free, pace⟩ := pace
  obtain ⟨t', found', -⟩ := execute_life s .caller f rest found
  refine ⟨hooks.execute, t', found', ?_⟩
  obtain ⟨life, due, told⟩ := execute_kept_of_found found found'
  rcases told with ⟨-, told⟩ | ⟨rfl, -, -⟩
  · refine ⟨told.trans free, pace.still (by simp [running]) life due execute_clock ?_⟩
    rw [execute_queue]
    exact List.mem_append_left _
  · exact absurd ⟨next?_of_running running frames, waits⟩ unstopped

theorem OnPace.execute_task (pace : OnPace m id first k n) (tidy : m.Tidy)
    (running : m.running = some (.task id)) (frames : (m.fiber (.task id)).frames = f :: rest) :
    m.tickPoll? = some (id, first + n * k) ∧
        OnPace (execute s m (.task id) rest f) id first k (n + 1) ∨
      m.tickPoll? = none ∧ OnPace (execute s m (.task id) rest f) id first k n := by
  obtain ⟨hooks, t, found, free, pace⟩ := pace
  obtain ⟨t', found', life⟩ := execute_life s (.task id) f rest found
  obtain ⟨-, due, told⟩ := execute_kept_of_found found found'
  have busy : t.life = .busy := tidy.busy running found
  have own : t.fiber.frames = f :: rest := by rw [← fiber_task id found, frames]
  have own' : t'.fiber.frames = m.pushed s f ++ rest := by
    rw [← fiber_task id found', execute_frames frames]
  have goesOn {j : Nat} (clock : m.clock = first + j * k)
      (next : t.due = (first + (j + 1) * k) * nanosPerMilli) (calm : f.isCalm = true)
      (inPass : InPass (m.pushed s f ++ rest)) :
      OnPace (execute s m (.task id) rest f) id first k (j + 1) := by
    have kept : t'.cancelled = t.cancelled := by
      rcases told with ⟨-, kept⟩ | ⟨rfl, -, -⟩
      · exact kept
      · cases calm
    exact ⟨hooks.execute, t', found', kept.trans free, .passes j (life.trans busy)
      (execute_running.trans running) (own' ▸ inPass) (execute_clock.trans clock) (due.trans next)⟩
  obtain ⟨-, ⟨poll, clock, next⟩ | ⟨j, rfl, inPass, clock, next⟩⟩ := pace.of_busy busy
  · obtain ⟨rfl, rfl⟩ := List.cons.inj (own.symm.trans poll)
    refine .inl ⟨tickPoll?_eq_some.mpr ⟨running, frames, clock⟩, goesOn clock next rfl ⟨?_, ?_⟩⟩
    · rw [List.append_nil]
      exact calm_pushed hooks rfl
    · rw [List.append_nil]
      exact last_pushed (.inl rfl)
  · refine .inr ⟨tickPoll?_eq_none fun i runs => ?_, ?_⟩
    · obtain rfl := Owner.task.inj (Option.some.inj (running.symm.trans runs))
      rw [fiber_task id found]
      exact inPass.ne_poll
    · rw [own] at inPass
      exact goesOn clock next (inPass.calm f List.mem_cons_self) (inPass_pushed hooks inPass)

theorem OnPace.tick (pace : OnPace m id first k n) (positive : 0 < k)
    (running : m.running = some (.task id)) (tidy : m.Tidy) (found : m.tasks[id]? = some t)
    (empty : t.fiber.frames = []) : OnPace (nextTick s m id t) id first k n := by
  obtain ⟨hooks, u, again, free, pace⟩ := pace
  obtain rfl := Option.some.inj (found.symm.trans again)
  obtain ⟨-, ⟨poll, -⟩ | ⟨j, rfl, -, clock, due⟩⟩ := pace.of_busy (tidy.busy running found)
  · cases empty.symm.trans poll
  · refine onPace_of_early hooks found free due (Nat.le_of_eq clock.symm) ?_
    rw [clock, Nat.succ_mul]
    omega

theorem OnPace.runTask (pace : OnPace m id first k n)
    (interval : s.intervalNanos = k * nanosPerMilli) (positive : 0 < k) (idle : m.running = none)
    (r : List Job) : OnPace (runTask s { m with queue := r } id) id first k n := by
  obtain ⟨hooks, t, found, free, pace⟩ := pace
  cases pace with
  | polls n life running => cases idle.symm.trans running
  | passes n life running => cases idle.symm.trans running
  | fresh life clock ready =>
    have nonzero : s.intervalNanos ≠ 0 := by
      rw [interval]
      exact Nat.mul_ne_zero (Nat.ne_of_gt positive) (by decide)
    have begins : runTask s { m with queue := r } id = beginTask s { m with queue := r } id t := by
      simp [runTask, found, life]
    have start : m.clock = first + 0 * k := by rw [clock, Nat.zero_mul, Nat.add_zero]
    rw [begins, beginTask, if_neg nonzero]
    exact onPace_of_due interval hooks (updateTask_self _ found) free start rfl
  | waits n life due after before ready =>
    have ticks : runTask s { m with queue := r } id = nextTick s { m with queue := r } id t := by
      simp [runTask, found, life]
    rw [ticks]
    rcases Nat.lt_or_eq_of_le before with early | now
    · exact onPace_of_early hooks found free due after early
    · exact onPace_of_due interval hooks found free now (by rw [due, clockNanos, now])

theorem OnPace.job {j : Job} {r : List Job} (pace : OnPace m id first k n)
    (interval : s.intervalNanos = k * nanosPerMilli) (positive : 0 < k) (tidy : m.Tidy)
    (idle : m.running = none) (queue : m.queue = j :: r) :
    OnPace (runJob s { m with queue := r } j) id first k n := by
  have hooks : (runJob s { m with queue := r } j).hooks = m.hooks :=
    (runJob_tended tidy idle j r).hooks
  have other : m.running ≠ some (.task id) := by simp [idle]
  have still {i : Nat} (ne : id ≠ i)
      (only : OnlyTask { m with queue := r } (runJob s { m with queue := r } j) i)
      (left : .task id ∈ m.queue → .task id ∈ r) :
      OnPace (runJob s { m with queue := r } j) id first k n := by
    obtain ⟨clock, same, others⟩ := only
    exact pace.still other hooks (others id ne) clock fun mem => same ▸ left mem
  cases j with
  | capture number sessionId completed =>
    refine still (Nat.ne_of_lt (Nat.lt_succ_self id)) (runCapture_only s _ _ _ _ _) fun mem => ?_
    simpa [queue] using mem
  | task i =>
    by_cases own : id = i
    · subst own
      exact pace.runTask interval positive idle r
    · refine still own (runTask_only s _ i) fun mem => ?_
      simpa [queue, own] using mem

theorem wakeTime_mul (millis : Nat) : wakeTime (millis * nanosPerMilli) = millis := by
  rw [wakeTime]
  simp only [nanosPerMilli]
  omega

theorem OnPace.passTime (pace : OnPace m id first k n) (idle : m.running = none)
    (queue : m.queue = []) (passes : m.passTime = some m') : OnPace m' id first k n := by
  obtain ⟨time, -, least, rfl⟩ := passTime_eq passes
  obtain ⟨hooks, t, found, free, pace⟩ := pace
  obtain ⟨j, rfl, life, due, after, early⟩ := pace.of_rest idle queue
  have wakes : t.wake? = some (first + (j + 1) * k) := by
    rw [PollTask.wake?, life, due, wakeTime_mul]
  have inside : time ≤ first + (j + 1) * k :=
    least _ (mem_wakeTimes.mpr (.inr ⟨id, t, found, wakes⟩))
  refine ⟨hooks, t, found, free, .waits j life due (Nat.le_trans after (Nat.le_max_left _ _))
    (Nat.max_le.mpr ⟨Nat.le_of_lt early, inside⟩) fun now => ?_⟩
  change max m.clock time = first + (j + 1) * k at now
  have ticks : first + (j + 1) * k ≤ time := by omega
  exact List.mem_append_right _ (mem_wakingTasks.mpr ⟨t, _, found, wakes, ticks⟩)

theorem OnPace.runs (pace : OnPace m id first k n) (run : Run s past m)
    (running : m.running = some o) : o = .caller ∨ o = .task id := by
  cases o with
  | caller => exact .inl rfl
  | task j =>
    obtain ⟨t, found, busy⟩ := (Tidy.reached run).running j running
    have live : m.isLive j = true := isLive_of_busy found busy
    exact .inr (congrArg Owner.task ((Guarded.reached run).live_unique live pace.live))

theorem OnPace.follows (pace : OnPace m id first k n) (run : Run s past m)
    (interval : s.intervalNanos = k * nanosPerMilli) (positive : 0 < k)
    (unstopped : ¬ m.StopBegins) (follows : Follows s m m') :
    m.tickPoll? = some (id, first + n * k) ∧ OnPace m' id first k (n + 1) ∨
      m.tickPoll? = none ∧ OnPace m' id first k n := by
  have tidy := Tidy.reached run
  have quiet (other : ∀ j, m.running ≠ some (.task j)) : m.tickPoll? = none :=
    tickPoll?_eq_none fun j running => absurd running (other j)
  have idles (idle : m.running = none) (j : Nat) : m.running ≠ some (.task j) := by simp [idle]
  cases follows with
  | issue operation idle settled =>
    exact .inr ⟨quiet (idles idle), pace.still (idles idle id) rfl rfl rfl fun mem => mem⟩
  | step made =>
    cases step_move made with
    | execute running frames waits =>
      rcases pace.runs run running with rfl | rfl
      · exact .inr ⟨quiet (by simp [running]),
          pace.execute_caller running frames waits unstopped⟩
      · exact pace.execute_task tidy running frames
    | pause running waits left =>
      rcases pace.runs run running with rfl | rfl
      · exact .inr ⟨quiet (by simp [running]),
          pace.still (by simp [running]) rfl rfl rfl fun mem => mem⟩
      · -- a calm frame does not wait
        obtain ⟨-, t, found, -, pace⟩ := pace
        obtain ⟨f, rest, frames⟩ := List.exists_cons_of_ne_nil (left id t rfl found)
        have calm : f.isCalm = true :=
          pace.calm (tidy.busy running found) f (frames ▸ List.mem_cons_self)
        have held := waits f rest ((congrArg Fiber.frames (fiber_task id found)).trans frames)
        rw [waits_of_calm calm] at held
        cases held
    | @tick j t running found empty =>
      obtain rfl : j = id := by simpa using pace.runs run running
      refine .inr ⟨tickPoll?_eq_none fun i runs => ?_,
        pace.tick positive running tidy found empty⟩
      obtain rfl := Owner.task.inj (Option.some.inj (running.symm.trans runs))
      simp [fiber_task j found, empty]
    | job idle queue =>
      exact .inr ⟨quiet (idles idle), pace.job interval positive tidy idle queue⟩
    | resume idle queue frames waits =>
      exact .inr ⟨quiet (idles idle), pace.still (idles idle id) rfl rfl rfl fun mem => mem⟩
    | passTime idle queue frames waits passes =>
      exact .inr ⟨quiet (idles idle), pace.passTime idle queue passes⟩

theorem OnPace.instant (pace : OnPace m id first k n) (tidy : m.Tidy)
    (running : m.running = some (.task id)) (none : m.tickPoll? = none) :
    ∃ i, i < n ∧ m.clock = first + i * k := by
  obtain ⟨-, t, found, -, pace⟩ := pace
  obtain ⟨-, ⟨frames, -⟩ | ⟨j, rfl, -, clock, -⟩⟩ := pace.of_busy (tidy.busy running found)
  · rw [tickPoll?_eq_some.mpr ⟨running, by rw [fiber_task id found, frames], rfl⟩] at none
    cases none
  · exact ⟨j, Nat.lt_succ_self j, clock⟩

/-! ### From a start to a stop -/

theorem onPace_of_start (run : Run s past x) (starts : x.Starts) (hooks : x.CalmHooks)
    (follows : Follows s x m) : OnPace m x.tasks.length x.clock k 0 := by
  obtain ⟨dead, unlocked, next⟩ := starts
  obtain ⟨o, rest, -, -, rfl⟩ := executes_next follows (Tidy.reached run) next unlocked
  have live : (execute s x o rest (.perform .start)).isLive x.tasks.length = true :=
    isLive_start dead
  obtain ⟨t, found, -⟩ := exists_of_isLive live
  refine ⟨hooks.execute, t, found, ?_⟩
  cases execute_kept found with
  | old u found' life fiber told due =>
    cases found'.symm.trans (List.getElem?_eq_none (Nat.le_refl _))
  | new starts dead' last life told fiber =>
    refine ⟨told, .fresh life execute_clock ?_⟩
    rw [execute_queue]
    exact List.mem_append_right _ (by simp [jobsMade, dead])

def Dismissed (m : Machine) (id : Nat) : Prop :=
  ∃ t, m.tasks[id]? = some t ∧ t.cancelled = true ∧ t.life ≠ .busy

theorem Dismissed.tickPoll (dismissed : m.Dismissed id) (tidy : m.Tidy) :
    m.tickPoll? ≠ some (id, time) := by
  intro polls
  obtain ⟨t, found, -, rests⟩ := dismissed
  obtain ⟨running, -, -⟩ := tickPoll?_eq_some.mp polls
  exact rests (tidy.busy running found)

theorem Dismissed.runTask (dismissed : m.Dismissed id) : (runTask s m id).Dismissed id := by
  obtain ⟨t, found, told, rests⟩ := dismissed
  have still : m.Dismissed id := ⟨t, found, told, rests⟩
  rw [Machine.runTask, found]
  dsimp only
  split
  · unfold beginTask
    split
    · exact ⟨_, updateTask_self _ found, told, by simp⟩
    · exact ⟨_, nextTick_of_told (updateTask_self _ found) told, told, by simp⟩
  · exact ⟨_, nextTick_of_told found told, told, by simp⟩
  · rename_i busy
    exact absurd busy rests
  · exact still
  · exact still

theorem Dismissed.follows (dismissed : m.Dismissed id) (tidy : m.Tidy) (follows : Follows s m m') :
    m'.Dismissed id := by
  obtain ⟨t, found, told, rests⟩ := dismissed
  have still {y : Machine} (same : y.tasks[id]? = m.tasks[id]?) : y.Dismissed id :=
    ⟨t, same.trans found, told, rests⟩
  cases follows with
  | issue operation idle settled => exact still rfl
  | step made =>
    cases step_move made with
    | @execute o f rest running frames waits =>
      obtain ⟨t', found', life⟩ := execute_life s o f rest found
      obtain ⟨-, -, kept⟩ := execute_kept_of_found found found'
      exact ⟨t', found', kept.elim (fun kept => kept.2.trans told) fun now => now.2.2,
        life ▸ rests⟩
    | pause running waits left => exact still rfl
    | @tick j u running found' empty =>
      refine still ((nextTick_only s m j u).2.2 id ?_)
      rintro rfl
      exact rests (tidy.busy running found)
    | @job j r idle queue =>
      cases j with
      | capture number sessionId completed =>
        exact still ((runCapture_only s _ number sessionId completed (id + 1)).2.2 id
          (Nat.ne_of_lt (Nat.lt_succ_self id)))
      | task i =>
        by_cases own : id = i
        · subst own
          exact Dismissed.runTask (m := { m with queue := r }) (still rfl)
        · exact still ((runTask_only s _ i).2.2 id own)
    | resume idle queue frames waits => exact still rfl
    | passTime idle queue frames waits passes =>
      obtain ⟨time, -, -, rfl⟩ := passTime_eq passes
      exact still rfl

theorem OnPace.dismissed (pace : OnPace m id first k n) (run : Run s past m)
    (stops : m.StopBegins) (follows : Follows s m m') : m'.Dismissed id := by
  obtain ⟨next, unlocked⟩ := stops
  obtain ⟨o, rest, running, frames, rfl⟩ := executes_next follows (Tidy.reached run) next unlocked
  obtain ⟨-, t, found, free, pace⟩ := pace
  obtain ⟨t', found', life⟩ := execute_life s o (.perform .stop) rest found
  obtain ⟨-, -, told⟩ := execute_kept_of_found found found'
  have current : m.current = some id := (Guarded.reached run).free id t found pace.live free
  refine ⟨t', found', (told.resolve_left fun kept => kept.1 ⟨rfl, current⟩).2.2, ?_⟩
  rw [life]
  intro busy
  -- a busy task is the one that runs, and there is no stop in what is left of its pass
  obtain rfl := Option.some.inj (running.symm.trans (pace.of_busy busy).1)
  rw [fiber_task id found] at frames
  cases pace.calm busy (.perform .stop) (frames ▸ List.mem_cons_self)

/-! ### Runs from a start on -/

theorem onPace_reached (run : Run s (newer ++ x :: older) m) (starts : x.Starts)
    (hooks : x.CalmHooks) (interval : s.intervalNanos = k * nanosPerMilli) (positive : 0 < k)
    (unstopped : ∀ y ∈ newer, ¬ y.StopBegins) : ∃ n,
      tickPolls newer = (List.range n).map (fun i => (x.tasks.length, x.clock + i * k)) ∧
        OnPace m x.tasks.length x.clock k n := by
  induction newer generalizing m with
  | nil =>
    obtain ⟨earlier, follows⟩ := run.follows
    exact ⟨0, rfl, onPace_of_start earlier starts hooks follows⟩
  | cons y newer ih =>
    obtain ⟨earlier, follows⟩ := run.follows
    obtain ⟨n, polls, pace⟩ := ih earlier fun z mem => unstopped z (.tail y mem)
    rcases pace.follows earlier interval positive (unstopped y List.mem_cons_self) follows with
      ⟨poll, pace⟩ | ⟨none, pace⟩
    · refine ⟨n + 1, ?_, pace⟩
      rw [tickPolls_cons, polls, poll, List.range_succ, List.map_append]
      rfl
    · refine ⟨n, ?_, pace⟩
      rw [tickPolls_cons, polls, none]
      exact List.append_nil _

/-- Whatever a poll task has polled since the start is due to a tick, or was asked for by a hook at
the instant of one. -/
theorem polls_at_ticks (run : Run s (newer ++ x :: older) m) (starts : x.Starts)
    (hooks : x.CalmHooks) (interval : s.intervalNanos = k * nanosPerMilli) (positive : 0 < k)
    (unstopped : ∀ y ∈ newer, ¬ y.StopBegins) {pass : Nat} {listed claimed : List SlotSession}
    (polled : .polled pass (.task id) time listed claimed ∈ m.history) :
    .polled pass (.task id) time listed claimed ∈ x.history ∨ (id, time) ∈ tickPolls newer := by
  induction newer generalizing m with
  | nil =>
    obtain ⟨earlier, follows⟩ := run.follows
    obtain ⟨o, rest, -, -, rfl⟩ :=
      executes_next follows (Tidy.reached earlier) starts.2.2 starts.2.1
    rw [execute_history] at polled
    rcases List.mem_append.mp polled with old | new
    · exact .inl old
    · cases (polled_of_mem_recorded new).1
  | cons y newer ih =>
    obtain ⟨earlier, follows⟩ := run.follows
    have tidy := Tidy.reached earlier
    have before : ∀ z ∈ newer, ¬ z.StopBegins := fun z mem => unstopped z (.tail y mem)
    rw [tickPolls_cons, List.mem_append]
    rcases polled_of_follows follows tidy polled with old | ⟨running, rfl⟩
    · exact (ih earlier before old).imp_right .inl
    · obtain ⟨n, polls, pace⟩ := onPace_reached earlier starts hooks interval positive before
      obtain rfl : id = x.tasks.length := by simpa using pace.runs earlier running
      cases poll : y.tickPoll? with
      | none =>
        obtain ⟨i, within, clock⟩ := pace.instant tidy running poll
        rw [polls]
        exact .inr (.inl (List.mem_map.mpr ⟨i, List.mem_range.mpr within, by rw [clock]⟩))
      | some due =>
        obtain ⟨runs, -, clock⟩ := tickPoll?_eq_some.mp (show _ = some (due.1, due.2) from poll)
        have same := Owner.task.inj (Option.some.inj (running.symm.trans runs))
        exact .inr (.inr (List.mem_singleton.mpr (Prod.ext same clock)))

theorem unstopped_or_dismissed (run : Run s (newer ++ x :: older) m) (starts : x.Starts)
    (hooks : x.CalmHooks) (interval : s.intervalNanos = k * nanosPerMilli) (positive : 0 < k) :
    (∀ y ∈ newer, ¬ y.StopBegins) ∨ m.Dismissed x.tasks.length := by
  induction newer generalizing m with
  | nil => exact .inl (by simp)
  | cons y newer ih =>
    obtain ⟨earlier, follows⟩ := run.follows
    rcases ih earlier with unstopped | dismissed
    · by_cases stops : y.StopBegins
      · obtain ⟨n, -, pace⟩ := onPace_reached earlier starts hooks interval positive unstopped
        exact .inr (pace.dismissed earlier stops follows)
      · exact .inl (List.forall_mem_cons.mpr ⟨stops, unstopped⟩)
    · exact .inr (dismissed.follows (Tidy.reached earlier) follows)

theorem Pace.clock_le (pace : Pace m id first k t n) : m.clock ≤ first + n * k := by
  cases pace with
  | fresh life clock => omega
  | polls n life running frames clock => omega
  | passes n life running frames clock =>
    rw [clock, Nat.succ_mul]
    omega
  | waits n life due after before => exact before

theorem Pace.polled_le {i : Nat} (pace : Pace m id first k t n) (polled : i < n) :
    first + i * k ≤ m.clock := by
  have below {j : Nat} (within : i ≤ j) : first + i * k ≤ first + j * k :=
    Nat.add_le_add_left (Nat.mul_le_mul_right k within) first
  cases pace with
  | fresh => cases polled
  | polls n life running frames clock => exact clock ▸ below (Nat.le_of_lt polled)
  | passes n life running frames clock => exact clock ▸ below (Nat.le_of_lt_succ polled)
  | waits n life due after before =>
    exact Nat.le_trans (below (Nat.le_of_lt_succ polled)) after

theorem Pace.count (pace : Pace m id first k t n) (idle : m.running = none) (queue : m.queue = []) :
    n = 1 + (m.clock - first) / k := by
  obtain ⟨j, rfl, -, -, after, early⟩ := pace.of_rest idle queue
  have quotient : (m.clock - first) / k = j := Nat.div_eq_of_lt_le (by omega) (by omega)
  rw [quotient, Nat.add_comm]

/-- What the background has polled since a start, with `k` milliseconds from one tick to the next:
nothing but the first `n` ticks of the task that started, in order, and what hooks asked for at their
instants. These `n` have come, and no other lies behind; where nothing runs or is ready no other has
come, now included. -/
structure OnSchedule (s : Setup) (x : Machine) (newer : List Machine) (m : Machine) (k n : Nat) :
    Prop where
  ticks : tickPolls newer = (List.range n).map fun i => (x.tasks.length, x.clock + i * k)
  recorded : ∀ y ∈ newer, ∀ id time, y.tickPoll? = some (id, time) →
    .polled y.passes (.task id) time y.slots (y.claimable s) ∈ m.history
  polled : ∀ pass id time listed claimed,
    .polled pass (.task id) time listed claimed ∈ m.history →
      .polled pass (.task id) time listed claimed ∈ x.history ∨ (id, time) ∈ tickPolls newer
  come : ∀ i, i < n → x.clock + i * k ≤ m.clock
  behind : ∀ i, x.clock + i * k < m.clock → i < n
  count : m.running = none → m.queue = [] → n = 1 + (m.clock - x.clock) / k

/-- If hooks that are left neither let time pass nor start or stop the reclaimer, the background polls
at a start and then once every interval up to the next stop, whatever the caller does meanwhile. From
that stop on the task does not poll. Each advance of the caller comes to rest after just its time. -/
theorem background_polls_on_schedule (run : Run s (newer ++ x :: older) m) (starts : x.Starts)
    (hooks : x.CalmHooks) (interval : s.intervalNanos = k * nanosPerMilli) (positive : 0 < k) :
    ((∀ y ∈ newer, ¬ y.StopBegins) → ∃ n, OnSchedule s x newer m k n) ∧
    (∀ after y before, newer = after ++ y :: before → y.StopBegins →
      ∀ z ∈ after, ∀ time, z.tickPoll? ≠ some (x.tasks.length, time)) ∧
    (m.running = none → m.caller.frames = [] → ∀ ms,
      let advanced := m.operate s (.advance ms)
      advanced.clock = m.clock + ms ∧ advanced.running = none ∧ advanced.queue = [] ∧
        advanced.caller.frames = []) := by
  refine ⟨fun unstopped => ?_, ?_, fun idle settled ms => ?_⟩
  · obtain ⟨n, polls, pace⟩ := onPace_reached run starts hooks interval positive unstopped
    obtain ⟨-, t, -, -, pace⟩ := pace
    exact ⟨n, {
      ticks := polls
      recorded := fun y mem id time => polled_of_tickPoll run (List.mem_append_left _ mem)
      polled := fun _ _ _ _ _ => polls_at_ticks run starts hooks interval positive unstopped
      come := fun i => pace.polled_le
      behind := fun i passed => Nat.lt_of_mul_lt_mul_right
        (Nat.lt_of_add_lt_add_left (Nat.lt_of_lt_of_le passed pace.clock_le))
      count := pace.count }⟩
  · rintro after y before rfl stops z mem time
    obtain ⟨later, between, rfl⟩ := List.append_of_mem mem
    have whole : Run s (later ++ z :: (between ++ y :: before ++ x :: older)) m := by
      simpa using run
    have earlier : Run s (between ++ y :: before ++ x :: older) z := whole.earlier
    rcases unstopped_or_dismissed earlier starts hooks interval positive with unstopped | dismissed
    · exact absurd stops (unstopped y (by simp))
    · exact dismissed.tickPoll (Tidy.reached earlier)
  · have reached : Reachable s m := ⟨_, run⟩
    obtain ⟨woken, clock, -⟩ := advance_splits reached idle settled ms (Nat.lt_succ_self _)
    obtain ⟨rests, queue, -⟩ := rests_of_settled (leads_operate reached idle settled (.advance ms)).2
    exact ⟨clock, rests, queue, by rw [woken]⟩

def splitPolling : List Machine × Machine :=
  let started := andThen .plain ([], .new [plainSlot "a" 100] [⟨"a", .reclaim⟩]) .start
  let reclaimed := andThen .plain (andThen .plain started (.advance 3000)) .reclaim
  let again := andThen .plain (andThen .plain reclaimed .start) (.advance 2000)
  andThen .plain (andThen .plain again (.advance 0)) (.advance 7500)

def splitStopped : List Machine × Machine :=
  andThen .plain (andThen .plain splitPolling .stop) (.advance 10000)

theorem background_polls_on_schedule_split :
    Run .plain splitPolling.1 splitPolling.2 ∧ Run .plain splitStopped.1 splitStopped.2 ∧
      splitPolling.2.clock = 12500 ∧ splitStopped.2.clock = 22500 ∧
      (∃ newer x older, splitPolling.1 = newer ++ x :: older ∧ x.Starts ∧
        tickPolls newer = [(0, 0), (0, 5000), (0, 10000)]) ∧
      (splitPolling.2.operate .plain (.advance 2500)).clock = 15000 ∧
      ∃ after y before x older, splitStopped.1 = after ++ y :: before ++ x :: older ∧ x.Starts ∧
        y.StopBegins ∧ ∀ z ∈ after, ∀ time, z.tickPoll? ≠ some (0, time) := by
  have started : Run .plain _ _ :=
    (Run.new [plainSlot "a" 100] [⟨"a", .reclaim⟩]).andThen (r := ([], _)) .start rfl rfl
  have reclaimed := (started.andThen (.advance 3000) (by decide +kernel) (by decide +kernel)).andThen
    .reclaim (by decide +kernel) (by decide +kernel)
  have again := (reclaimed.andThen .start (by decide +kernel) (by decide +kernel)).andThen
    (.advance 2000) (by decide +kernel) (by decide +kernel)
  have run : Run .plain splitPolling.1 splitPolling.2 :=
    (again.andThen (.advance 0) (by decide +kernel) (by decide +kernel)).andThen (.advance 7500)
      (by decide +kernel) (by decide +kernel)
  have stopped : Run .plain splitStopped.1 splitStopped.2 :=
    (run.andThen .stop (by decide +kernel) (by decide +kernel)).andThen (.advance 10000)
      (by decide +kernel) (by decide +kernel)
  have interval : Setup.plain.intervalNanos = 5000 * nanosPerMilli := by decide +kernel
  have clock : splitPolling.2.clock = 12500 := by decide +kernel
  have split : splitPolling.1 = splitPolling.1.take 46 ++
      splitPolling.1.get ⟨46, by decide +kernel⟩ :: splitPolling.1.drop 47 := by
    rw [List.cons_get_drop_succ, List.take_append_drop]
  have starts : (splitPolling.1.get ⟨46, by decide +kernel⟩).Starts := by decide +kernel
  have first : (splitPolling.1.get ⟨46, by decide +kernel⟩).tasks.length = 0 ∧
      (splitPolling.1.get ⟨46, by decide +kernel⟩).clock = 0 := by
    decide +kernel
  obtain ⟨paced, -, advances⟩ := background_polls_on_schedule (split ▸ run) starts
    (by unfold CalmHooks; decide +kernel) interval (by decide)
  obtain ⟨n, schedule⟩ := paced (by decide +kernel)
  obtain rfl : n = 3 := by
    rw [schedule.count (by decide +kernel) (by decide +kernel), first.2, clock]
  have ticks := schedule.ticks
  rw [first.1, first.2] at ticks
  have advanced := (advances (by decide +kernel) (List.isEmpty_iff.mp (by decide +kernel)) 2500).1
  have split' : splitStopped.1 = splitStopped.1.take 59 ++
      splitStopped.1.get ⟨59, by decide +kernel⟩ :: splitStopped.1.drop 60 := by
    rw [List.cons_get_drop_succ, List.take_append_drop]
  have starts' : (splitStopped.1.get ⟨59, by decide +kernel⟩).Starts := by decide +kernel
  have first' : (splitStopped.1.get ⟨59, by decide +kernel⟩).tasks.length = 0 := by decide +kernel
  obtain ⟨y, mem, stops⟩ : ∃ y ∈ splitStopped.1.take 59, y.StopBegins := by decide +kernel
  obtain ⟨after, before, same⟩ := List.append_of_mem mem
  obtain ⟨-, silent, -⟩ := background_polls_on_schedule (split' ▸ stopped) starts'
    (by unfold CalmHooks; decide +kernel) interval (by decide)
  exact ⟨run, stopped, clock, by decide +kernel, ⟨_, _, _, split, starts, ticks⟩,
    advanced.trans (by rw [clock]), after, y, before, _, _, same ▸ split', starts', stops,
    first' ▸ silent after y before same stops⟩

end Machine
end Reclaimer
end NodeFleet
