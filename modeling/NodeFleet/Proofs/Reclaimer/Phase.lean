import NodeFleet.Proofs.Reclaimer.Guard

set_option autoImplicit false
namespace NodeFleet
namespace Reclaimer

def Frame.found? : Frame → Option Phase
  | .releases _ _ previous _ => some previous
  | _ => none

def found (frames : List Frame) : List Phase := frames.filterMap Frame.found?

theorem found_append (frames rest : List Frame) :
    found (frames ++ rest) = found frames ++ found rest :=
  List.filterMap_append

namespace Machine

def InProgress (m : Machine) : Prop :=
  found m.caller.frames ≠ [] ∨ ∃ t ∈ m.tasks, found t.fiber.frames ≠ []

instance (m : Machine) : Decidable m.InProgress := inferInstanceAs (Decidable (_ ∨ _))

variable {s : Setup} {m m' : Machine} {o o' : Owner} {f : Frame} {rest : List Frame}

theorem inProgress_iff : m.InProgress ↔ ∃ o, found (m.fiber o).frames ≠ [] := by
  constructor
  · rintro (caller | ⟨t, mem, task⟩)
    · exact ⟨.caller, caller⟩
    · obtain ⟨id, found⟩ := List.mem_iff_getElem?.mp mem
      exact ⟨.task id, by rwa [fiber_task id found]⟩
  · rintro ⟨o, h⟩
    cases o with
    | caller => exact .inl h
    | task id =>
      cases found : m.tasks[id]? with
      | none =>
        rw [fiber_of_no_task found] at h
        exact absurd rfl h
      | some t =>
        rw [fiber_task id found] at h
        exact .inr ⟨t, List.mem_of_getElem? found, h⟩

inductive PhaseChange (m : Machine) (rest : List Frame) (f : Frame) : Phase → List Phase → Prop
  | begins (poll : f = .poll) : PhaseChange m rest f .reclaiming (m.phase :: found rest)
  | ends (pass : Nat) (previous : Phase) (count : Nat)
      (last : f = .releases pass [] previous count) :
      PhaseChange m rest f (if m.phase = .reclaiming then previous else m.phase) (found rest)
  | starts (start : f = .perform .start) (dead : m.polls = false) :
      PhaseChange m rest f .polling (found rest)
  | stops (stop : (f = .perform .stop ∧ m.current = none) ∨ ∃ id, f = .awaitEnd id) :
      PhaseChange m rest f .stopped (found rest)
  | same (alive : f = .perform .start → m.polls = true)
      (left : ∀ pass previous count, f ≠ .releases pass [] previous count) :
      PhaseChange m rest f m.phase (found (f :: rest))

theorem phaseChange_same (phase : m.phaseAfter s f = m.phase)
    (pushed : found (m.pushed s f) = found [f]) (alive : f = .perform .start → m.polls = true)
    (left : ∀ pass previous count, f ≠ .releases pass [] previous count) :
    PhaseChange m rest f (m.phaseAfter s f) (found (m.pushed s f ++ rest)) := by
  have split : found (m.pushed s f ++ rest) = found (f :: rest) := by
    rw [found_append, pushed, ← found_append]
    rfl
  rw [phase, split]
  exact .same alive left

theorem phaseChange (frames : (m.fiber o).frames = f :: rest) :
    PhaseChange m rest f (execute s m o rest f).phase
      (found ((execute s m o rest f).fiber o).frames) := by
  rw [execute_phase, execute_frames frames]
  cases f with
  | perform operation =>
    cases operation with
    | start =>
      cases h : m.polls
      · simpa [phaseAfter, pushed, h] using PhaseChange.starts rfl h
      · exact phaseChange_same (by simp [phaseAfter, h]) rfl (fun _ => h) (by simp)
    | stop =>
      cases h : m.current with
      | none => simpa [phaseAfter, pushed, h] using PhaseChange.stops (.inl ⟨rfl, h⟩)
      | some id =>
        exact phaseChange_same (by simp [phaseAfter, h]) (by simp only [pushed, h]; rfl) (by simp)
          (by simp)
    | advance ms =>
      refine phaseChange_same rfl ?_ (by simp) (by simp)
      by_cases h : ms = 0
      · simp only [pushed, if_pos h]
        rfl
      · simp only [pushed, if_neg h]
        rfl
    | setSlots slots => exact phaseChange_same rfl rfl (by simp) (by simp)
    | complete slot => exact phaseChange_same rfl rfl (by simp) (by simp)
    | reclaim => exact phaseChange_same rfl rfl (by simp) (by simp)
    | phase => exact phaseChange_same rfl rfl (by simp) (by simp)
  | poll =>
    by_cases h : (m.claimable s).isEmpty = true
    · exact phaseChange_same (by simp [phaseAfter, h]) (by simp only [pushed, if_pos h]; rfl)
        (by simp) (by simp)
    · simp only [phaseAfter, pushed, if_neg h]
      exact .begins rfl
  | releases pass left previous count =>
    cases left with
    | nil => exact .ends pass previous count rfl
    | cons slot left =>
      refine phaseChange_same rfl ?_ (by simp) (by simp)
      cases h : takeHook slot.slotId m.hooks <;> simp only [pushed, h] <;> rfl
  | awaitEnd id => exact .stops (.inr ⟨id, rfl⟩)
  | sleep wake => exact phaseChange_same rfl rfl (by simp) (by simp)
  | hookEnd => exact phaseChange_same rfl rfl (by simp) (by simp)
  | capture pass sessionId => exact phaseChange_same rfl rfl (by simp) (by simp)

theorem Tended.found (h : Tended s m m') (o : Owner) :
    found (m'.fiber o).frames = found (m.fiber o).frames := by
  rcases h.frames o with same | ⟨before, after⟩
  · rw [same]
  · rw [before, after]
    rfl

theorem found_issue (operation : Operation) (settled : m.caller.frames = []) (o : Owner) :
    found ((m.issue operation).fiber o).frames = found (m.fiber o).frames := by
  by_cases ho : o = .caller
  · subst ho
    change found [.perform operation] = found m.caller.frames
    rw [settled]
    rfl
  · rw [issue_fiber_of_ne operation ho]

/-- The pass that turned the phase into reclaiming is still in progress. -/
def Reclaims (m : Machine) : Prop :=
  m.phase = .reclaiming → ∃ o, ∃ p ∈ found (m.fiber o).frames, p ≠ .reclaiming

theorem Reclaims.execute (h : m.Reclaims) (frames : (m.fiber o).frames = f :: rest) :
    (execute s m o rest f).Reclaims := by
  intro reclaiming
  -- the pass that turned the phase into reclaiming is still in progress unless this frame ends it
  have before : m.phase = .reclaiming → (∀ p ∈ found (f :: rest), p ≠ .reclaiming →
      p ∈ found ((Machine.execute s m o rest f).fiber o).frames) →
      ∃ o', ∃ p ∈ found ((Machine.execute s m o rest f).fiber o').frames, p ≠ .reclaiming := by
    intro phase kept
    obtain ⟨o', p, mem, hp⟩ := h phase
    by_cases ho : o' = o
    · subst ho
      rw [frames] at mem
      exact ⟨o', p, kept p mem hp, hp⟩
    · exact ⟨o', p, by rwa [execute_fiber_of_ne ho], hp⟩
  have change := phaseChange (s := s) frames
  generalize (Machine.execute s m o rest f).phase = phase' at change reclaiming
  generalize hf : found ((Machine.execute s m o rest f).fiber o).frames = found' at change before
  cases change with
  | begins poll =>
    by_cases phase : m.phase = .reclaiming
    · subst poll
      exact before phase fun p mem _ => List.mem_cons_of_mem m.phase mem
    · exact ⟨o, m.phase, by rw [hf]; exact List.mem_cons_self, phase⟩
  | ends pass previous count last =>
    subst last
    have phase : m.phase = .reclaiming := by
      split at reclaiming
      · assumption
      · exact reclaiming
    rw [if_pos phase] at reclaiming
    refine before phase fun p mem hp => ?_
    rcases List.mem_cons.mp mem with rfl | mem
    · exact absurd reclaiming hp
    · exact mem
  | starts start dead => cases reclaiming
  | stops stop => cases reclaiming
  | same alive left => exact before reclaiming fun p mem _ => mem

theorem Tended.phase (h : Tended s m m') : m'.phase = m.phase ∨ m'.phase = .stopped := by
  cases h.task with
  | none same samePhase running => exact .inl samePhase
  | one id t t' found live empty told others turn =>
    cases turn with
    | ended told life frames stopped running => exact .inr stopped
    | polls life frames same running => exact .inl same
    | waits life frames same running => exact .inl same
    | failed interval life frames same running => exact .inl same

theorem Reclaims.reached {past : List Machine} (run : Run s past m) : m.Reclaims := by
  induction run with
  | new slots hooks => exact fun h => by cases h
  | issue operation _ _ settled ih =>
    intro reclaiming
    obtain ⟨o, p, mem, hp⟩ := ih reclaiming
    exact ⟨o, p, by rwa [found_issue operation settled], hp⟩
  | step run hs ih =>
    obtain ⟨o, f, rest, -, frames, -, rfl⟩ | ⟨-, h⟩ := step_cases (Tidy.reached run) hs
    · exact ih.execute frames
    · intro reclaiming
      rcases h.phase with same | stopped
      · obtain ⟨o, p, mem, hp⟩ := ih (same ▸ reclaiming)
        exact ⟨o, p, by rwa [h.found], hp⟩
      · rw [stopped] at reclaiming
        cases reclaiming

end Machine
end Reclaimer
end NodeFleet
