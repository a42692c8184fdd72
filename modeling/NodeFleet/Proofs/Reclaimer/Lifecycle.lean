import NodeFleet.Proofs.Reclaimer.Effect
/-!
Poll tasks over their lives. Whoever stops the reclaimer holds the lock until the poll task has
ended, and the lock keeps others from starting and stopping meanwhile; so at most one poll task is
alive, and unless it was told to end it is the one that stopping would end.
-/

set_option autoImplicit false
namespace NodeFleet
namespace Reclaimer
namespace Machine

structure Tidy (m : Machine) : Prop where
  frames : ∀ (id : Nat) (t : PollTask), m.tasks[id]? = some t → t.life ≠ .busy → t.fiber.frames = []
  running : ∀ id, m.running = some (.task id) → ∃ t, m.tasks[id]? = some t ∧ t.life = .busy

/-- What becomes of a task that has its turn with nothing left to do, from a phase on. -/
inductive Turn (s : Setup) (phase : Phase) (m' : Machine) (id : Nat) (t' : PollTask) : Prop
  | ended (told : t'.cancelled = true) (life : t'.life = .ended) (frames : t'.fiber.frames = [])
      (stopped : m'.phase = .stopped) (running : m'.running = none)
  | polls (life : t'.life = .busy) (frames : t'.fiber.frames = [.poll]) (same : m'.phase = phase)
      (running : m'.running = some (.task id))
  | waits (life : t'.life = .waiting) (frames : t'.fiber.frames = []) (same : m'.phase = phase)
      (running : m'.running = none)
  | failed (interval : s.intervalNanos = 0) (life : t'.life = .failed)
      (frames : t'.fiber.frames = []) (same : m'.phase = phase) (running : m'.running = none)

inductive TaskMove (s : Setup) (tasks : List PollTask) (phase : Phase) (m' : Machine) : Prop
  | none (same : m'.tasks = tasks) (samePhase : m'.phase = phase)
      (running : ∀ id, m'.running = some (.task id) → ∃ t, tasks[id]? = some t ∧ t.life = .busy)
  | one (id : Nat) (t t' : PollTask) (found : tasks[id]? = some t) (live : t.life.isLive = true)
      (empty : t.fiber.frames = []) (told : t'.cancelled = t.cancelled)
      (others : ∀ j, m'.tasks[j]? = if j = id then some t' else tasks[j]?)
      (turn : Turn s phase m' id t')

structure Aside (m m' : Machine) : Prop where
  slots : m'.slots = m.slots
  hooks : m'.hooks = m.hooks
  terminal : m'.terminal = m.terminal
  current : m'.current = m.current
  locked : m'.locked = m.locked
  caller : m'.caller = m.caller
  passes : m'.passes = m.passes
  captures : m'.captures = m.captures
  history : ∃ notes : List Note, m'.history = m.history ++ notes.map .noted

/-- A move that executes no frame. -/
structure Tended (s : Setup) (m m' : Machine) : Prop extends Aside m m' where
  task : TaskMove s m.tasks m.phase m'

variable {s : Setup} {m m' : Machine}

theorem Tidy.busy (tidy : m.Tidy) {id : Nat} {t : PollTask}
    (running : m.running = some (.task id)) (found : m.tasks[id]? = some t) : t.life = .busy := by
  obtain ⟨u, again, busy⟩ := tidy.running id running
  obtain rfl := Option.some.inj (found.symm.trans again)
  exact busy

theorem updateTask_lookup {id : Nat} {t : PollTask} (g : PollTask → PollTask)
    (h : m.tasks[id]? = some t) (j : Nat) :
    (m.updateTask id g).tasks[j]? = if j = id then some (g t) else m.tasks[j]? := by
  rw [updateTask_get]
  by_cases hj : j = id
  · subst j
    simp [h]
  · simp [hj, Ne.symm hj]

theorem updateTask_self {id : Nat} {t : PollTask} (g : PollTask → PollTask)
    (h : m.tasks[id]? = some t) : (m.updateTask id g).tasks[id]? = some (g t) := by
  rw [updateTask_lookup g h, if_pos rfl]

theorem nextTick_turn {id : Nat} {t : PollTask} (h : m.tasks[id]? = some t)
    (empty : t.fiber.frames = []) : ∃ t',
    (∀ j, (nextTick s m id t).tasks[j]? = if j = id then some t' else m.tasks[j]?) ∧
      t'.cancelled = t.cancelled ∧ Turn s m.phase (nextTick s m id t) id t' := by
  unfold nextTick
  split
  · rename_i told
    exact ⟨{ t with life := .ended }, updateTask_lookup _ h, rfl, .ended told rfl empty rfl rfl⟩
  · split
    · exact ⟨{ t with
        life := .busy
        due := nextDue s.intervalNanos t.due m.clockNanos
        fiber := ⟨[.poll], .done⟩ }, updateTask_lookup _ h, rfl, .polls rfl rfl rfl rfl⟩
    · exact ⟨{ t with life := .waiting }, updateTask_lookup _ h, rfl, .waits rfl empty rfl rfl⟩

theorem aside_of_history (h : m'.history = m.history) (hs : m'.slots = m.slots)
    (hh : m'.hooks = m.hooks) (ht : m'.terminal = m.terminal) (hc : m'.current = m.current)
    (hl : m'.locked = m.locked) (hf : m'.caller = m.caller) (hp : m'.passes = m.passes)
    (hn : m'.captures = m.captures) : Aside m m' :=
  ⟨hs, hh, ht, hc, hl, hf, hp, hn, [], by simp [h]⟩

theorem nextTick_aside (id : Nat) (t : PollTask) : Aside m (nextTick s m id t) := by
  unfold nextTick
  split
  · exact ⟨rfl, rfl, rfl, rfl, rfl, rfl, rfl, rfl, [.reclaimerStopped s.proxy], rfl⟩
  · split <;> exact aside_of_history rfl rfl rfl rfl rfl rfl rfl rfl rfl

theorem nextTick_tended {id : Nat} {t : PollTask} (h : m.tasks[id]? = some t)
    (live : t.life.isLive = true) (empty : t.fiber.frames = []) :
    Tended s m (nextTick s m id t) := by
  obtain ⟨t', others, told, turn⟩ := nextTick_turn (s := s) h empty
  exact { nextTick_aside id t with task := .one id t t' h live empty told others turn }

theorem beginTask_tended {id : Nat} {t : PollTask} (h : m.tasks[id]? = some t)
    (live : t.life.isLive = true) (empty : t.fiber.frames = []) :
    Tended s m (beginTask s m id t) := by
  unfold beginTask
  split
  · rename_i interval
    exact { aside_of_history rfl rfl rfl rfl rfl rfl rfl rfl rfl with
      task := .one id t { t with life := .failed } h live empty rfl (updateTask_lookup _ h)
        (.failed interval rfl empty rfl rfl) }
  · have due := updateTask_lookup (fun t => { t with due := m.clockNanos }) h
    have ht : (m.updateTask id fun t => { t with due := m.clockNanos }).tasks[id]? =
        some { t with due := m.clockNanos } := by
      rw [due, if_pos rfl]
    have aside := nextTick_aside (s := s) (m := m.updateTask id fun t =>
      { t with due := m.clockNanos }) id { t with due := m.clockNanos }
    obtain ⟨t', others, told, turn⟩ := nextTick_turn (s := s) ht empty
    refine { aside with task := .one id t t' h live empty told ?_ turn }
    intro j
    rw [others, due]
    split <;> rfl

theorem tended_of_same (queue : List Job) (running : Option Owner) (clock : Nat)
    (h : ∀ id, running = some (.task id) → ∃ t, m.tasks[id]? = some t ∧ t.life = .busy) :
    Tended s m { m with queue := queue, running := running, clock := clock } :=
  { aside_of_history rfl rfl rfl rfl rfl rfl rfl rfl rfl with task := .none rfl rfl h }

theorem runTask_tended (tidy : m.Tidy) (idle : m.running = none) (id : Nat) :
    Tended s m (runTask s m id) := by
  have same : Tended s m m := tended_of_same m.queue m.running m.clock (by simp [idle])
  unfold runTask
  split
  · exact same
  · rename_i t found
    split
    · rename_i life
      exact beginTask_tended found (by simp [life, Life.isLive])
        (tidy.frames id t found (by simp [life]))
    · rename_i life
      exact nextTick_tended found (by simp [life, Life.isLive])
        (tidy.frames id t found (by simp [life]))
    · rename_i life
      refine tended_of_same m.queue (some (.task id)) m.clock ?_
      intro j hj
      cases hj
      exact ⟨t, found, life⟩
    · exact same
    · exact same

theorem runJob_tended (tidy : m.Tidy) (idle : m.running = none) (j : Job) (r : List Job) :
    Tended s m (runJob s { m with queue := r } j) := by
  cases j with
  | task id =>
    have tidy' : Tidy { m with queue := r } := ⟨tidy.frames, tidy.running⟩
    have h : Tended s { m with queue := r } (runTask s { m with queue := r } id) :=
      runTask_tended tidy' idle id
    exact { h with }
  | capture number sessionId completed =>
    have same : Tended s m { m with queue := r } :=
      tended_of_same r m.running m.clock (by simp [idle])
    unfold runJob runCapture
    dsimp only
    split
    · exact { same with
        history := ⟨[.captureFailed sessionId completed], rfl⟩
        task := .none rfl rfl (by simp [note, record, idle]) }
    · exact same

theorem passTime_tended (idle : m.running = none) (h : m.passTime = some m') : Tended s m m' := by
  unfold passTime at h
  obtain ⟨time, _, rfl⟩ := Option.map_eq_some_iff.mp h
  dsimp only
  split
  · exact tended_of_same _ (some .caller) _ (by simp)
  · exact tended_of_same _ m.running _ (by simp [idle])

theorem Tended.frames (h : Tended s m m') (o : Owner) :
    (m'.fiber o).frames = (m.fiber o).frames ∨
      (m.fiber o).frames = [] ∧ (m'.fiber o).frames = [.poll] := by
  cases o with
  | caller => exact .inl (congrArg Fiber.frames h.caller)
  | task k =>
    cases h.task with
    | none same samePhase running => exact .inl (by simp only [fiber, same])
    | one id t t' found live empty told others turn =>
      by_cases hk : k = id
      · subst hk
        rw [fiber_task k found, fiber_task k (t := t') (by rw [others, if_pos rfl]), empty]
        cases turn with
        | ended told life frames stopped running => exact .inl frames
        | polls life frames same running => exact .inr ⟨rfl, frames⟩
        | waits life frames same running => exact .inl frames
        | failed interval life frames same running => exact .inl frames
      · exact .inl (by simp only [fiber, others, if_neg hk])

theorem Tended.live_task (h : Tended s m m') {id : Nat} {t' : PollTask}
    (found : m'.tasks[id]? = some t') (live : t'.life.isLive = true) :
    ∃ t, m.tasks[id]? = some t ∧ t.life.isLive = true ∧ t.cancelled = t'.cancelled := by
  cases h.task with
  | none same samePhase running =>
    rw [same] at found
    exact ⟨t', found, live, rfl⟩
  | one k t u foundOld liveOld empty told others turn =>
    rw [others] at found
    split at found
    · rename_i hk
      obtain rfl := Option.some.inj found
      exact ⟨t, hk ▸ foundOld, liveOld, told.symm⟩
    · exact ⟨t', found, live, rfl⟩

def next? (m : Machine) : Option Frame := m.running.bind fun o => (m.fiber o).frames.head?

theorem next?_of_running {o : Owner} {f : Frame} {rest : List Frame} (running : m.running = some o)
    (frames : (m.fiber o).frames = f :: rest) : m.next? = some f := by
  simp [next?, running, frames]

/-- What runs has nothing to execute now. -/
def Rests (m : Machine) : Prop := ∀ f, m.next? = some f → m.waits f = true

theorem rests_of_idle (idle : m.running = none) : m.Rests := by
  intro f h
  rw [next?, idle] at h
  cases h

/-- Every step executes a frame of what runs, or tends to the poll tasks. -/
theorem step_cases (tidy : m.Tidy) (h : m.step s = some m') :
    (∃ o f rest, m.running = some o ∧ (m.fiber o).frames = f :: rest ∧ m.waits f = false ∧
      m' = execute s m o rest f) ∨ m.Rests ∧ Tended s m m' := by
  cases step_move h with
  | execute running frames waits => exact .inl ⟨_, _, _, running, frames, waits, rfl⟩
  | @pause o running waits left =>
    refine .inr ⟨?_, tended_of_same m.queue none m.clock (by simp)⟩
    intro f next
    rw [next?, running, Option.bind_some, List.head?_eq_some_iff] at next
    obtain ⟨rest, frames⟩ := next
    exact waits f rest frames
  | @tick id t running found empty =>
    have busy : t.life = .busy := tidy.busy running found
    refine .inr ⟨?_, nextTick_tended found (by rw [busy]; rfl) empty⟩
    intro f next
    simp [next?, running, fiber_task id found, empty] at next
  | job idle queue => exact .inr ⟨rests_of_idle idle, runJob_tended tidy idle _ _⟩
  | resume idle queue frames waits =>
    exact .inr ⟨rests_of_idle idle, tended_of_same m.queue (some .caller) m.clock (by simp)⟩
  | passTime idle queue frames waits h =>
    exact .inr ⟨rests_of_idle idle, passTime_tended idle h⟩

section
variable {o : Owner} {f : Frame} {rest : List Frame} {id : Nat} {t t' : PollTask}

inductive Kept (m : Machine) (o : Owner) (f : Frame) (id : Nat) (t' : PollTask) : Prop
  | old (t : PollTask) (found : m.tasks[id]? = some t) (life : t'.life = t.life)
      (fiber : o ≠ .task id → t'.fiber = t.fiber)
      (told : ¬ (f = .perform .stop ∧ m.current = some id) ∧ t'.cancelled = t.cancelled ∨
        f = .perform .stop ∧ m.current = some id ∧ t'.cancelled = true)
      (due : t'.due = t.due)
  | new (starts : f = .perform .start) (dead : m.polls = false) (last : id = m.tasks.length)
      (life : t'.life = .fresh) (told : t'.cancelled = false)
      (fiber : o ≠ .task id → t'.fiber = .idle)

theorem execute_kept (h : (execute s m o rest f).tasks[id]? = some t') : Kept m o f id t' := by
  obtain ⟨fb, hg⟩ := execute_get s m o rest f id
  rw [hg] at h
  obtain ⟨u, hu, ht⟩ := Option.map_eq_some_iff.mp h
  have life : t'.life = u.life := by rw [← ht]; split <;> rfl
  have told : t'.cancelled = u.cancelled := by rw [← ht]; split <;> rfl
  have due : t'.due = u.due := by rw [← ht]; split <;> rfl
  have fiber : o ≠ .task id → t'.fiber = u.fiber := fun ho => by rw [← ht, if_neg ho]
  unfold tasksAfter at hu
  split at hu
  · split at hu
    · exact .old u hu life fiber (.inl ⟨by simp, told⟩) due
    · rename_i dead
      by_cases hid : id < m.tasks.length
      · rw [List.getElem?_append_left hid] at hu
        exact .old u hu life fiber (.inl ⟨by simp, told⟩) due
      · rw [List.getElem?_append_right (by omega)] at hu
        have last : id = m.tasks.length := by
          have := (List.getElem?_eq_some_iff.mp hu).1
          simp only [List.length_singleton] at this
          omega
        subst last
        simp only [Nat.sub_self, List.getElem?_cons_zero, Option.some.injEq] at hu
        subst hu
        exact .new rfl (by simpa using dead) rfl life told fiber
  · split at hu
    · rename_i none
      exact .old u hu life fiber (.inl ⟨by simp [none], told⟩) due
    · rename_i k current
      rw [List.getElem?_modify] at hu
      obtain ⟨v, hv, rfl⟩ := Option.map_eq_some_iff.mp hu
      by_cases hk : k = id
      · subst hk
        rw [if_pos rfl] at life told fiber due
        exact .old v hv life fiber (.inr ⟨rfl, current, told⟩) due
      · rw [if_neg hk] at life told fiber due
        exact .old v hv life fiber (.inl ⟨by simp [current, hk], told⟩) due
  · rename_i start stop
    exact .old u hu life fiber (.inl ⟨fun h => stop h.1, told⟩) due

theorem execute_kept_of_found (found : m.tasks[id]? = some t)
    (found' : (execute s m o rest f).tasks[id]? = some t') : t'.life = t.life ∧ t'.due = t.due ∧
      (¬ (f = .perform .stop ∧ m.current = some id) ∧ t'.cancelled = t.cancelled ∨
        f = .perform .stop ∧ m.current = some id ∧ t'.cancelled = true) := by
  cases execute_kept found' with
  | new starts dead last life told fiber =>
    subst last
    cases found.symm.trans (List.getElem?_eq_none (Nat.le_refl _))
  | old u again life fiber told due =>
    obtain rfl := Option.some.inj (found.symm.trans again)
    exact ⟨life, due, told⟩

variable (s o f rest) in
theorem execute_life (h : m.tasks[id]? = some t) :
    ∃ t', (execute s m o rest f).tasks[id]? = some t' ∧ t'.life = t.life := by
  obtain ⟨fb, hg⟩ := execute_get s m o rest f id
  have kept : ∃ u, (m.tasksAfter f)[id]? = some u ∧ u.life = t.life := by
    have hid := (List.getElem?_eq_some_iff.mp h).1
    unfold tasksAfter
    split
    · split
      · exact ⟨t, h, rfl⟩
      · exact ⟨t, by rw [List.getElem?_append_left hid, h], rfl⟩
    · split
      · exact ⟨t, h, rfl⟩
      · rename_i k _
        refine ⟨_, by rw [List.getElem?_modify, h]; rfl, ?_⟩
        split <;> rfl
    · exact ⟨t, h, rfl⟩
  obtain ⟨u, hu, life⟩ := kept
  refine ⟨_, by rw [hg, hu]; rfl, ?_⟩
  rw [← life]
  split <;> rfl

end

theorem Tidy.execute (tidy : m.Tidy) {o : Owner} {f : Frame} {rest : List Frame}
    (running : m.running = some o) : Tidy (execute s m o rest f) := by
  have busy_of : ∀ id, o = .task id → ∃ t, m.tasks[id]? = some t ∧ t.life = .busy := by
    rintro id rfl
    exact tidy.running id running
  constructor
  · intro id t' h hlife
    cases execute_kept h with
    | old t found life fiber told =>
      have ho : o ≠ .task id := by
        intro ho
        obtain ⟨u, hu, busy⟩ := busy_of id ho
        rw [found] at hu
        obtain rfl := Option.some.inj hu
        exact hlife (life.trans busy)
      rw [fiber ho]
      exact tidy.frames id t found (by rwa [← life])
    | new starts dead last life told fiber =>
      have ho : o ≠ .task id := by
        intro ho
        obtain ⟨u, hu, -⟩ := busy_of id ho
        have := (List.getElem?_eq_some_iff.mp hu).1
        omega
      rw [fiber ho]
      rfl
  · intro id hr
    rw [execute_running] at hr
    obtain ⟨t, found, busy⟩ := tidy.running id hr
    obtain ⟨t', found', life⟩ := execute_life s o f rest found
    exact ⟨t', found', life.trans busy⟩

theorem Tidy.tended (tidy : m.Tidy) (h : Tended s m m') : m'.Tidy := by
  cases h.task with
  | none same samePhase running =>
    constructor
    · rw [same]
      exact tidy.frames
    · rw [same]
      exact running
  | one id t t' found live empty told others turn =>
    constructor
    · intro j u hu hlife
      rw [others] at hu
      split at hu
      · obtain rfl := Option.some.inj hu
        cases turn with
        | ended told life frames stopped running => exact frames
        | polls life frames same running => exact absurd life hlife
        | waits life frames same running => exact frames
        | failed interval life frames same running => exact frames
      · exact tidy.frames j u hu hlife
    · intro j hr
      cases turn with
      | polls life frames same running =>
        rw [running] at hr
        cases hr
        exact ⟨t', by rw [others, if_pos rfl], life⟩
      | ended told life frames stopped running => simp [running] at hr
      | waits life frames same running => simp [running] at hr
      | failed interval life frames same running => simp [running] at hr

theorem Tidy.issue (tidy : m.Tidy) (operation : Operation) : (m.issue operation).Tidy :=
  ⟨tidy.frames, by simp [Machine.issue]⟩

theorem Tidy.step (tidy : m.Tidy) (made : m.step s = some m') : m'.Tidy := by
  obtain ⟨o, f, rest, running, -, -, rfl⟩ | ⟨-, h⟩ := step_cases tidy made
  · exact tidy.execute running
  · exact tidy.tended h

theorem Tidy.reached {past : List Machine} (run : Run s past m) : m.Tidy := by
  induction run with
  | new slots hooks => exact ⟨by simp [Machine.new], by simp [Machine.new]⟩
  | issue operation _ _ _ ih => exact ih.issue operation
  | step _ made ih => exact ih.step made

end Machine
end Reclaimer
end NodeFleet
