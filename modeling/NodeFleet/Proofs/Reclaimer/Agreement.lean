import NodeFleet.Proofs.Reclaimer.Phase
/-!
The phase against the poll task. A pass cannot tell whether the reclaiming that it finds at its end
is its own. A pass that found the reclaimer stopped, goes on while polling starts, and ends during a
pass of the poll task therefore puts `stopped` back while that task polls. Apart from this the phase
agrees with the poll task whenever no pass is in progress.
-/

set_option autoImplicit false
namespace NodeFleet
namespace Reclaimer

def Frame.putsBack? (phase : Phase) : Frame → Option Phase
  | .releases _ [] previous _ =>
    if phase = .reclaiming ∧ previous ≠ .reclaiming then some previous else none
  | _ => none

namespace Machine

/-- A poll task is alive and was not told to end. -/
def HasPoller (m : Machine) : Prop := ∃ t ∈ m.tasks, t.life.isLive = true ∧ t.cancelled = false

def NoTask (m : Machine) : Prop := ∀ t ∈ m.tasks, t.life.isLive = false

/-- The phase tells whether a poll task polls. -/
def Agrees (m : Machine) : Prop :=
  (m.HasPoller → m.phase = .polling) ∧ (m.NoTask → m.phase = .stopped)

instance (m : Machine) : Decidable m.HasPoller := inferInstanceAs (Decidable (∃ t ∈ m.tasks, _))
instance (m : Machine) : Decidable m.NoTask := inferInstanceAs (Decidable (∀ t ∈ m.tasks, _))
instance (m : Machine) : Decidable m.Agrees := inferInstanceAs (Decidable (_ ∧ _))

def putsBack? (m : Machine) : Option Phase := m.next?.bind (Frame.putsBack? m.phase)

/-- The next step starts a poll task. -/
def Starts (m : Machine) : Prop :=
  m.polls = false ∧ m.locked = false ∧ m.next? = some (.perform .start)

/-- A poll task starts while a pass is in progress that found the reclaimer stopped. -/
def StartsLate (m : Machine) : Prop := m.Starts ∧ ∃ o, .stopped ∈ found (m.fiber o).frames

end Machine

/-- Since the last start, the pass that put a phase back last has put back `stopped`. -/
def Misled (past : List Machine) : Prop :=
  ∃ newer x older, past = newer ++ x :: older ∧ x.putsBack? = some .stopped ∧
    ∀ y ∈ newer, y.putsBack? = none ∧ ¬ y.Starts

theorem misled_cons {m : Machine} {past : List Machine} : Misled (m :: past) ↔
    m.putsBack? = some .stopped ∨ m.putsBack? = none ∧ ¬ m.Starts ∧ Misled past := by
  constructor
  · rintro ⟨newer, x, older, split, back, since⟩
    cases newer with
    | nil =>
      obtain ⟨rfl, rfl⟩ := List.cons.inj split
      exact .inl back
    | cons y newer =>
      obtain ⟨rfl, rfl⟩ := List.cons.inj split
      obtain ⟨none, starts⟩ := since m List.mem_cons_self
      exact .inr ⟨none, starts, newer, x, older, rfl, back,
        fun y hy => since y (List.mem_cons_of_mem m hy)⟩
  · rintro (back | ⟨none, starts, newer, x, older, rfl, back, since⟩)
    · exact ⟨[], m, past, rfl, back, by simp⟩
    · refine ⟨m :: newer, x, older, rfl, back, ?_⟩
      intro y hy
      rcases List.mem_cons.mp hy with rfl | hy
      · exact ⟨none, starts⟩
      · exact since y hy

namespace Machine
variable {s : Setup} {m m' : Machine} {o o' : Owner} {f : Frame} {rest : List Frame}

theorem hasPoller_iff : m.HasPoller ↔
    ∃ (id : Nat) (t : PollTask),
      m.tasks[id]? = some t ∧ t.life.isLive = true ∧ t.cancelled = false := by
  constructor
  · rintro ⟨t, mem, h⟩
    obtain ⟨id, found⟩ := List.mem_iff_getElem?.mp mem
    exact ⟨id, t, found, h⟩
  · rintro ⟨id, t, found, h⟩
    exact ⟨t, List.mem_of_getElem? found, h⟩

theorem noTask_iff : m.NoTask ↔ ∀ id, m.isLive id = false := by
  constructor
  · intro none id
    cases found : m.tasks[id]? with
    | none => simp [isLive, found]
    | some t =>
      rw [isLive_eq found]
      exact none t (List.mem_of_getElem? found)
  · intro none t mem
    obtain ⟨id, found⟩ := List.mem_iff_getElem?.mp mem
    rw [← isLive_eq found]
    exact none id

/-! ### Without a poll task -/

/-- The outermost of the nested passes that count has found the reclaimer stopped. -/
def StopsAtLast (m : Machine) : Prop :=
  m.phase ≠ .polling ∧
    (m.phase = .reclaiming → (found m.caller.frames).find? (· ≠ .reclaiming) = some .stopped)

theorem NoTask.caller (none : m.NoTask) (tidy : m.Tidy) (running : m.running = some o) :
    o = .caller := by
  cases o with
  | caller => rfl
  | task id =>
    obtain ⟨t, found, busy⟩ := tidy.running id running
    have dead := noTask_iff.mp none id
    rw [isLive_eq found, busy] at dead
    cases dead

theorem NoTask.of_execute (none : (execute s m o rest f).NoTask) : m.NoTask := by
  intro t mem
  obtain ⟨id, found⟩ := List.mem_iff_getElem?.mp mem
  obtain ⟨t', found', life⟩ := execute_life s o f rest found
  rw [← life]
  exact none t' (List.mem_of_getElem? found')

theorem isLive_start (dead : m.polls = false) :
    (execute s m o rest (.perform .start)).isLive m.tasks.length = true := by
  obtain ⟨fb, h⟩ := execute_get s m o rest (.perform .start) m.tasks.length
  simp only [tasksAfter, dead, Bool.false_eq_true, if_false, List.getElem?_concat_length,
    Option.map_some] at h
  rw [isLive_eq h]
  split <;> rfl

theorem StopsAtLast.execute (h : m.StopsAtLast) (frames : m.caller.frames = f :: rest)
    (none : (execute s m .caller rest f).NoTask) : (execute s m .caller rest f).StopsAtLast := by
  have change := phaseChange (s := s) (m := m) (o := .caller) frames
  unfold StopsAtLast at h ⊢
  rw [frames] at h
  change PhaseChange m rest f _ (found (Machine.execute s m .caller rest f).caller.frames) at change
  generalize (Machine.execute s m .caller rest f).phase = phase' at change ⊢
  generalize found (Machine.execute s m .caller rest f).caller.frames = found' at change ⊢
  cases change with
  | begins poll =>
    subst poll
    refine ⟨by simp, fun _ => ?_⟩
    cases phase : m.phase with
    | polling => exact absurd phase h.1
    | stopped => rfl
    | reclaiming => exact h.2 phase
  | ends pass previous count last =>
    subst last
    by_cases phase : m.phase = .reclaiming
    · have first := h.2 phase
      rw [if_pos phase]
      cases previous with
      | polling => cases first
      | stopped => simp
      | reclaiming => exact ⟨by simp, fun _ => first⟩
    · rw [if_neg phase]
      exact ⟨h.1, fun now => absurd now phase⟩
  | starts start dead =>
    subst start
    have live := noTask_iff.mp none m.tasks.length
    rw [isLive_start dead] at live
    cases live
  | stops stop => simp
  | same alive left => exact h

theorem Tended.noTask (interval : 0 < s.intervalNanos) (h : Tended s m m') (none : m'.NoTask) :
    m.NoTask ∧ m'.phase = m.phase ∨ m'.phase = .stopped := by
  cases h.task with
  | none same samePhase running => exact .inl ⟨by rwa [NoTask, ← same], samePhase⟩
  | one id t t' found live empty told others turn =>
    have dead := none t' (List.mem_of_getElem? (i := id) (by rw [others, if_pos rfl]))
    cases turn with
    | ended told life frames stopped running => exact .inr stopped
    | polls life frames same running => simp [life, Life.isLive] at dead
    | waits life frames same running => simp [life, Life.isLive] at dead
    | failed zero life frames same running => omega

theorem NoTask.stopsAtLast {past : List Machine} (interval : 0 < s.intervalNanos)
    (run : Run s past m) (none : m.NoTask) : m.StopsAtLast := by
  induction run with
  | new slots hooks => exact ⟨by simp [Machine.new], by simp [Machine.new]⟩
  | @issue past m operation _ _ settled ih =>
    have same := found_issue operation settled .caller
    change found (m.issue operation).caller.frames = found m.caller.frames at same
    have h := ih none
    unfold StopsAtLast at h ⊢
    rwa [same]
  | step run hs ih =>
    have tidy := Tidy.reached run
    obtain ⟨o, f, rest, running, frames, -, rfl⟩ | ⟨-, h⟩ := step_cases tidy hs
    · obtain rfl := none.of_execute.caller tidy running
      exact (ih none.of_execute).execute frames none
    · rcases h.noTask interval none with ⟨none, same⟩ | stopped
      · have before := ih none
        unfold StopsAtLast at before ⊢
        rwa [same, h.caller]
      · exact ⟨by simp [stopped], by simp [stopped]⟩

/-! ### With a poll task -/

theorem Tended.hasPoller (h : Tended s m m') (poller : m'.HasPoller) : m.HasPoller := by
  obtain ⟨id, t', found', live, told⟩ := hasPoller_iff.mp poller
  obtain ⟨t, found, live, same⟩ := h.live_task found' live
  exact hasPoller_iff.mpr ⟨id, t, found, live, same.trans told⟩

theorem Tended.phase_of_hasPoller (h : Tended s m m') (guard : m.Guarded)
    (poller : m'.HasPoller) : m'.phase = m.phase := by
  obtain ⟨id, t, found, live, told⟩ := hasPoller_iff.mp (h.hasPoller poller)
  have current := guard.free id t found live told
  cases h.task with
  | none same samePhase running => exact samePhase
  | one k u u' found live empty same others turn =>
    cases turn with
    | ended told life frames stopped running =>
      obtain ⟨o, awaits⟩ := guard.told k u found live (same ▸ told)
      rw [(guard.holder o k awaits).2] at current
      cases current
    | polls life frames same running => exact same
    | waits life frames same running => exact same
    | failed interval life frames same running => exact same

theorem HasPoller.of_execute (guard : m.Guarded) (poller : (execute s m o rest f).HasPoller) :
    f = .perform .start ∧ m.polls = false ∨
      m.HasPoller ∧ m.polls = true ∧ m.current ≠ none := by
  obtain ⟨id, t', found', live, told⟩ := hasPoller_iff.mp poller
  cases execute_kept found' with
  | new starts dead last life fresh fiber => exact .inl ⟨starts, dead⟩
  | old t found life fiber kept =>
    rcases kept with ⟨-, same⟩ | ⟨-, -, now⟩
    · rw [life] at live
      rw [same] at told
      have current := guard.free id t found live told
      have alive : m.polls = true := by simp [polls, current, isLive_eq found, live]
      exact .inr ⟨hasPoller_iff.mpr ⟨id, t, found, live, told⟩, alive, by simp [current]⟩
    · rw [now] at told
      cases told

theorem Guarded.not_stops (guard : m.Guarded) (frames : (m.fiber o).frames = f :: rest)
    (current : m.current ≠ none) :
    ¬ ((f = .perform .stop ∧ m.current = none) ∨ ∃ id, f = .awaitEnd id) := by
  rintro (⟨-, none⟩ | ⟨id, rfl⟩)
  · exact current none
  · exact current (guard.holder o id (by simp [Awaits, frames])).2

theorem Rests.putsBack? (rests : m.Rests) : m.putsBack? = none := by
  cases next : m.next? with
  | none => simp [Machine.putsBack?, next]
  | some f =>
    have waits := rests f next
    rw [Machine.putsBack?, next, Option.bind_some]
    unfold Frame.putsBack?
    split
    · cases waits
    · rfl

theorem Rests.starts (rests : m.Rests) : ¬ m.Starts := by
  rintro ⟨-, locked, next⟩
  have waits := rests _ next
  rw [Machine.waits, locked] at waits
  cases waits

def Polls (past : List Machine) (m : Machine) : Prop :=
  m.phase = .reclaiming ∨ m.phase = .polling ∧ ¬ Misled past ∨ m.phase = .stopped ∧ Misled past

theorem Polls.rests {past : List Machine} (h : m.Polls past) (rests : m.Rests)
    (same : m'.phase = m.phase) : m'.Polls (m :: past) := by
  have kept : Misled (m :: past) ↔ Misled past := by
    rw [misled_cons, rests.putsBack?]
    simp [rests.starts]
  unfold Polls at h ⊢
  rwa [same, kept]

theorem Polls.execute {past : List Machine} (running : m.running = some o)
    (frames : (m.fiber o).frames = f :: rest) (waits : m.waits f = false) (guard : m.Guarded)
    (before : m.HasPoller → m.Polls past) (poller : (execute s m o rest f).HasPoller) :
    (execute s m o rest f).Polls (m :: past) := by
  have next := next?_of_running running frames
  have change := phaseChange (s := s) frames
  unfold Polls at before ⊢
  rw [misled_cons, putsBack?, next, Option.bind_some]
  rcases poller.of_execute guard with ⟨rfl, dead⟩ | ⟨polled, alive, current⟩
  · have starts : m.Starts := ⟨dead, by simpa [Machine.waits] using waits, next⟩
    rw [execute_phase]
    simp [phaseAfter, dead, starts, Frame.putsBack?]
  have h := before polled
  have starts : ¬ m.Starts := by simp [Starts, alive]
  generalize (Machine.execute s m o rest f).phase = phase' at change ⊢
  generalize found ((Machine.execute s m o rest f).fiber o).frames = found' at change
  cases change with
  | begins poll => exact .inl rfl
  | ends pass previous count last =>
    subst last
    by_cases phase : m.phase = .reclaiming
    · cases previous <;> simp [Frame.putsBack?, phase, starts]
    · simpa [Frame.putsBack?, phase, starts] using h
  | starts start dead =>
    rw [alive] at dead
    cases dead
  | stops stop => exact absurd stop (guard.not_stops frames current)
  | same alive left =>
    have none : Frame.putsBack? m.phase f = none := by
      unfold Frame.putsBack?
      split
      · exact absurd rfl (left _ _ _)
      · rfl
    simpa [none, starts] using h

theorem HasPoller.polls {past : List Machine} (run : Run s past m) (poller : m.HasPoller) :
    m.Polls past := by
  induction run with
  | new slots hooks =>
    obtain ⟨t, mem, -⟩ := poller
    cases mem
  | issue operation run idle settled ih => exact (ih poller).rests (rests_of_idle idle) rfl
  | step run hs ih =>
    have guard := Guarded.reached run
    obtain ⟨o, f, rest, running, frames, waits, rfl⟩ | ⟨rests, h⟩ :=
      step_cases (Tidy.reached run) hs
    · exact Polls.execute running frames waits guard ih poller
    · exact (ih (h.hasPoller poller)).rests rests (h.phase_of_hasPoller guard poller)

/-! ### Without a late start -/

def Lasting (m : Machine) : Prop := m.phase ≠ .stopped ∧ ∀ o, .stopped ∉ found (m.fiber o).frames

theorem found_execute {p : Phase} (old : ∀ o', p ∉ found (m.fiber o').frames)
    (here : p ∉ found ((execute s m o rest f).fiber o).frames) (o' : Owner) :
    p ∉ found ((execute s m o rest f).fiber o').frames := by
  by_cases ho : o' = o
  · rwa [ho]
  · rw [execute_fiber_of_ne ho]
    exact old o'

theorem lasting_start (frames : (m.fiber o).frames = .perform .start :: rest)
    (dead : m.polls = false) (old : ∀ o', .stopped ∉ found (m.fiber o').frames) :
    (execute s m o rest (.perform .start)).Lasting := by
  refine ⟨?_, found_execute old ?_⟩
  · rw [execute_phase]
    simp [phaseAfter, dead]
  · have here := old o
    rw [frames] at here
    rw [execute_frames frames]
    exact here

theorem Lasting.execute (lasting : m.Lasting) (frames : (m.fiber o).frames = f :: rest)
    (guard : m.Guarded) (alive : m.polls = true) (current : m.current ≠ none) :
    (execute s m o rest f).Lasting := by
  obtain ⟨phase, old⟩ := lasting
  have here := old o
  rw [frames] at here
  have change := phaseChange (s := s) frames
  have others : .stopped ∉ found ((Machine.execute s m o rest f).fiber o).frames →
      ∀ o', .stopped ∉ found ((Machine.execute s m o rest f).fiber o').frames :=
    fun after => found_execute old after
  unfold Lasting
  generalize (Machine.execute s m o rest f).phase = phase' at change ⊢
  generalize found ((Machine.execute s m o rest f).fiber o).frames = found' at change others
  cases change with
  | begins poll =>
    subst poll
    refine ⟨by simp, others ?_⟩
    rw [List.mem_cons, not_or]
    exact ⟨fun h => phase h.symm, here⟩
  | ends pass previous count last =>
    subst last
    have after : .stopped ∉ previous :: found rest := here
    rw [List.mem_cons, not_or] at after
    refine ⟨?_, others after.2⟩
    split
    · exact fun h => after.1 h.symm
    · exact phase
  | starts start dead =>
    rw [alive] at dead
    cases dead
  | stops stop => exact absurd stop (guard.not_stops frames current)
  | same alive left => exact ⟨phase, others here⟩

theorem HasPoller.lasting {past : List Machine} (run : Run s past m)
    (early : ∀ x ∈ past, ¬ x.StartsLate) (poller : m.HasPoller) : m.Lasting := by
  induction run with
  | new slots hooks =>
    obtain ⟨t, mem, -⟩ := poller
    cases mem
  | issue operation run idle settled ih =>
    obtain ⟨phase, old⟩ := ih (fun x hx => early x (List.mem_cons_of_mem _ hx)) poller
    exact ⟨phase, fun o => by rw [found_issue operation settled]; exact old o⟩
  | @step past m m' run hs ih =>
    have guard := Guarded.reached run
    have before := ih (fun x hx => early x (List.mem_cons_of_mem _ hx))
    obtain ⟨o, f, rest, running, frames, waits, rfl⟩ | ⟨rests, h⟩ :=
      step_cases (Tidy.reached run) hs
    · rcases poller.of_execute guard with ⟨rfl, dead⟩ | ⟨polled, alive, current⟩
      · have starts : m.Starts :=
          ⟨dead, by simpa [Machine.waits] using waits, next?_of_running running frames⟩
        exact lasting_start frames dead fun o' mem => early _ List.mem_cons_self ⟨starts, o', mem⟩
      · exact (before polled).execute frames guard alive current
    · obtain ⟨phase, old⟩ := before (h.hasPoller poller)
      refine ⟨by rwa [h.phase_of_hasPoller guard poller], fun o => ?_⟩
      rw [h.found]
      exact old o

/-! ### The phase and the poll task -/

theorem phase_ne_reclaiming {past : List Machine} (run : Run s past m) (idle : ¬ m.InProgress) :
    m.phase ≠ .reclaiming := by
  intro reclaiming
  obtain ⟨o, p, mem, -⟩ := Reclaims.reached run reclaiming
  exact idle (inProgress_iff.mpr ⟨o, List.ne_nil_of_mem mem⟩)

theorem NoTask.stopped {past : List Machine} (interval : 0 < s.intervalNanos) (run : Run s past m)
    (none : m.NoTask) (ended : m.phase ≠ .reclaiming) : m.phase = .stopped := by
  have polling := (none.stopsAtLast interval run).1
  cases phase : m.phase with
  | polling => exact absurd phase polling
  | reclaiming => exact absurd phase ended
  | stopped => rfl

/-- With no pass in progress the phase agrees with the poll task, unless one polls and the pass
that last put a phase back since it started has put `stopped` back; then the phase is `stopped`.
That takes a start during a pass that had found the reclaimer stopped. -/
theorem agrees_unless_misled {past : List Machine} (run : Run s past m)
    (interval : 0 < s.intervalNanos) (idle : ¬ m.InProgress) :
    (m.Agrees ↔ ¬ (m.HasPoller ∧ Misled past)) ∧
      (¬ m.Agrees → m.phase = .stopped ∧ ∃ x ∈ past, x.StartsLate) := by
  have ended := phase_ne_reclaiming run idle
  have stopped : m.NoTask → m.phase = .stopped := fun none => none.stopped interval run ended
  have agrees_of : (m.HasPoller → m.phase = .polling) → m.Agrees :=
    fun polling => ⟨polling, stopped⟩
  have polls : m.HasPoller →
      m.phase = .polling ∧ ¬ Misled past ∨ m.phase = .stopped ∧ Misled past :=
    fun poller => (poller.polls run).resolve_left ended
  constructor
  · constructor
    · rintro ⟨polling, -⟩ ⟨poller, misled⟩
      rcases polls poller with ⟨-, led⟩ | ⟨phase, -⟩
      · exact led misled
      · rw [polling poller] at phase
        cases phase
    · intro led
      refine agrees_of fun poller => ?_
      rcases polls poller with ⟨phase, -⟩ | ⟨-, misled⟩
      · exact phase
      · exact absurd ⟨poller, misled⟩ led
  · intro disagrees
    have poller : m.HasPoller := Classical.byContradiction fun none =>
      disagrees (agrees_of fun poller => absurd poller none)
    have phase : m.phase = .stopped := by
      rcases polls poller with ⟨phase, -⟩ | ⟨phase, -⟩
      · exact absurd (agrees_of fun _ => phase) disagrees
      · exact phase
    refine ⟨phase, Classical.byContradiction fun early => ?_⟩
    have lasting := poller.lasting run fun x hx late => early ⟨x, hx, late⟩
    exact lasting.1 phase

def lateStart : Machine :=
  (new [plainSlot "a" 100, plainSlot "b" 100, plainSlot "c" 100]
    [⟨"a", .start⟩, ⟨"b", .setSlots [plainSlot "d" 100]⟩, ⟨"c", .advance 100⟩,
      ⟨"d", .advance 200⟩]).operate .plain .reclaim

def overlappingPasses : Machine := lateStart.operate .plain (.advance 300)

theorem agrees_unless_misled_overlapping :
    ∃ past, Run .plain past overlappingPasses ∧ overlappingPasses.HasPoller ∧
      overlappingPasses.phase = .stopped ∧ Misled past ∧ ∃ x ∈ past, x.StartsLate := by
  have late : Reachable .plain lateStart := (Reachable.new _ _).operate .reclaim rfl rfl
  have settled : lateStart.isSettled = true := by decide +kernel
  have reached : Reachable .plain overlappingPasses :=
    late.operate (.advance 300) (by decide +kernel) (List.isEmpty_iff.mp settled)
  obtain ⟨past, run⟩ := reached
  have interval : 0 < Setup.plain.intervalNanos := by decide
  have idle : ¬ overlappingPasses.InProgress := by decide +kernel
  have disagrees : ¬ overlappingPasses.Agrees := by decide +kernel
  obtain ⟨exactly, start⟩ := agrees_unless_misled run interval idle
  obtain ⟨poller, misled⟩ := Classical.not_not.mp (mt exactly.mpr disagrees)
  obtain ⟨stopped, late⟩ := start disagrees
  exact ⟨past, run, poller, stopped, misled, late⟩

end Machine
end Reclaimer
end NodeFleet
