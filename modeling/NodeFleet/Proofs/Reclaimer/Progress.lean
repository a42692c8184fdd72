import NodeFleet.Proofs.Reclaimer.Balance

set_option autoImplicit false
namespace NodeFleet
namespace Reclaimer

/-- A pass claimed sessions, and its end is not on record. -/
def UnderWay (history : List Occurrence) (pass : Nat) : Prop :=
  (∃ owner time listed claimed, .polled pass owner time listed claimed ∈ history ∧ claimed ≠ []) ∧
    ∀ count, .passEnded pass count ∉ history

def Occurrence.releasedSlot? (pass : Nat) : Occurrence → Option SlotSession
  | .released p slot _ _ _ => if p = pass then some slot else none
  | _ => none

/-- What a pass has released, in order. -/
def releasedSlots (pass : Nat) (history : List Occurrence) : List SlotSession :=
  history.filterMap (Occurrence.releasedSlot? pass)

section
variable {pass : Nat} {done : List SlotSession} {served : List Occurrence}

theorem releasedSlots_eventsOf (pass : Nat) (history : List Occurrence) :
    releasedSlots pass (eventsOf pass history) = releasedSlots pass history := by
  rw [releasedSlots, eventsOf, List.filterMap_filter]
  refine List.filterMap_congr fun e _ => ?_
  cases e with
  | captured => exact ite_self none
  | _ => simp [Occurrence.pass?, Occurrence.releasedSlot?]

theorem Serves.releasedSlots (h : Serves pass done served) :
    Reclaimer.releasedSlots pass served = done := by
  induction h with
  | none => rfl
  | more slot phase occupied _ ih =>
    rw [Reclaimer.releasedSlots] at ih ⊢
    rw [List.filterMap_append, ih]
    simp [Occurrence.releasedSlot?]

theorem Serves.not_polled (h : Serves pass done served) {owner : Owner} {time : Nat}
    {listed claimed : List SlotSession} : .polled pass owner time listed claimed ∉ served := by
  intro mem
  obtain ⟨slot, -, ⟨phase, occupied, same⟩ | same⟩ := h.mem mem
  · cases same
  · cases same

end

namespace Stage
variable {m : Machine} {pass time : Nat} {owner : Owner} {listed claimed : List SlotSession}

inductive AfterPoll (m : Machine) (pass : Nat) (owner : Owner) (claimed : List SlotSession) : Prop
  | stacked (frames : framesOf pass (m.fiber owner).frames ≠ [])
      (running : ∀ count, .passEnded pass count ∉ m.history)
  | ended (frames : ∀ o, framesOf pass (m.fiber o).frames = [])
      (ended : .passEnded pass claimed.length ∈ m.history)
      (released : releasedSlots pass m.history = claimed)

theorem of_polled (h : Stage m pass) (polled : .polled pass owner time listed claimed ∈ m.history) :
    AfterPoll m pass owner claimed := by
  have own : .polled pass owner time listed claimed ∈ eventsOf pass m.history :=
    mem_eventsOf.mpr ⟨polled, rfl⟩
  have event {count : Nat} (ended : .passEnded pass count ∈ m.history) :
      .passEnded pass count ∈ eventsOf pass m.history :=
    mem_eventsOf.mpr ⟨ended, rfl⟩
  cases h with
  | unborn fresh frames events =>
    rw [events] at own
    cases own
  | releasing old owner' time' listed' done left previous served serves frames events =>
    rw [events, List.mem_cons] at own
    obtain ⟨-, rfl, -, -, rfl⟩ :=
      Occurrence.polled.inj (own.resolve_right serves.not_polled)
    refine .stacked (by rw [frames, if_pos rfl]; exact List.cons_ne_nil _ _) fun count ended => ?_
    have last := event ended
    rw [events, List.mem_cons] at last
    rcases last with same | last
    · cases same
    · exact serves.not_ended last
  | capturing old owner' time' listed' done left slot previous phase occupied served serves frames
      events =>
    rw [events, List.mem_append, List.mem_cons, List.mem_singleton] at own
    obtain ⟨-, rfl, -, -, rfl⟩ :=
      Occurrence.polled.inj ((own.resolve_right (by simp)).resolve_right serves.not_polled)
    refine .stacked (by rw [frames, if_pos rfl]; exact List.cons_ne_nil _ _) fun count ended => ?_
    have last := event ended
    rw [events, List.mem_append, List.mem_cons, List.mem_singleton] at last
    rcases last with (same | last) | same
    · cases same
    · exact serves.not_ended last
    · cases same
  | ended old owner' time' listed' done served serves frames events =>
    rw [events, List.mem_append, List.mem_cons, List.mem_singleton] at own
    obtain ⟨-, rfl, -, -, rfl⟩ :=
      Occurrence.polled.inj ((own.resolve_right (by simp)).resolve_right serves.not_polled)
    refine .ended frames ?_ ?_
    · have last : .passEnded pass claimed.length ∈ eventsOf pass m.history := by
        rw [events]
        exact List.mem_append_right _ (List.mem_singleton_self _)
      exact (mem_eventsOf.mp last).1
    · rw [← releasedSlots_eventsOf, events, Reclaimer.releasedSlots, List.filterMap_append,
        List.filterMap_cons_none rfl, ← Reclaimer.releasedSlots, serves.releasedSlots]
      exact List.append_nil _

end Stage

namespace Machine
variable {s : Setup} {m m' x : Machine} {o o' : Owner} {f : Frame} {rest : List Frame}
  {past newer : List Machine}

/-- The poll at which the phase became reclaiming, and what is left of its pass. -/
structure Turned (s : Setup) (newer : List Machine) (x : Machine) (o : Owner) (m : Machine) :
    Prop where
  poll : x.running = some o ∧ x.next? = some .poll
  before : x.phase ≠ .reclaiming
  since : ∀ y ∈ newer, y.phase = .reclaiming
  claimed : x.claimable s ≠ []
  polled : .polled x.passes o x.clock x.slots (x.claimable s) ∈ m.history
  left : ∃ left count, .releases x.passes left x.phase count ∈ (m.fiber o).frames

namespace Turned

theorem execute (turned : Turned s newer x o' m) (frames : (m.fiber o).frames = f :: rest)
    (phase : m.phase = .reclaiming) (still : (execute s m o rest f).phase = .reclaiming) :
    Turned s (m :: newer) x o' (execute s m o rest f) := by
  refine ⟨turned.poll, turned.before, ?_, turned.claimed, ?_, ?_⟩
  · exact List.forall_mem_cons.mpr ⟨phase, turned.since⟩
  · rw [execute_history]
    exact List.mem_append_left _ turned.polled
  obtain ⟨left, count, mem⟩ := turned.left
  by_cases here : o' = o
  · subst here
    rw [execute_frames frames]
    rw [frames] at mem
    rcases List.mem_cons.mp mem with rfl | mem
    · cases left with
      | nil =>
        rw [execute_phase, phaseAfter, if_pos phase] at still
        exact absurd still turned.before
      | cons slot left =>
        refine ⟨left, count, List.mem_append_left _ ?_⟩
        cases h : takeHook slot.slotId m.hooks <;> simp [pushed, h]
    · exact ⟨left, count, List.mem_append_right _ mem⟩
  · rw [execute_fiber_of_ne here]
    exact ⟨left, count, mem⟩

theorem tended (turned : Turned s newer x o m) (phase : m.phase = .reclaiming)
    (h : Tended s m m') : Turned s (m :: newer) x o m' := by
  obtain ⟨notes, history⟩ := h.history
  obtain ⟨left, count, mem⟩ := turned.left
  refine ⟨turned.poll, turned.before, ?_, turned.claimed, ?_, left, count, ?_⟩
  · exact List.forall_mem_cons.mpr ⟨phase, turned.since⟩
  · rw [history]
    exact List.mem_append_left _ turned.polled
  · rwa [(h.frames o).resolve_right fun idle => by simp [idle.1] at mem]

theorem issue (turned : Turned s newer x o m) (phase : m.phase = .reclaiming)
    (operation : Operation) (settled : m.caller.frames = []) :
    Turned s (m :: newer) x o (m.issue operation) := by
  obtain ⟨left, count, mem⟩ := turned.left
  refine ⟨turned.poll, turned.before, ?_, turned.claimed, turned.polled, left, count, ?_⟩
  · exact List.forall_mem_cons.mpr ⟨phase, turned.since⟩
  · have other : o ≠ .caller := by
      rintro rfl
      rw [fiber, settled] at mem
      cases mem
    rwa [issue_fiber_of_ne operation other]

end Turned

theorem turned_of_execute (frames : (m.fiber o).frames = f :: rest) (running : m.running = some o)
    (before : m.phase ≠ .reclaiming) (now : (execute s m o rest f).phase = .reclaiming) :
    Turned s [] m o (execute s m o rest f) := by
  have history : (Machine.execute s m o rest f).history = m.history ++ m.recorded s o f :=
    execute_history
  have pushed : ((Machine.execute s m o rest f).fiber o).frames = m.pushed s f ++ rest :=
    execute_frames frames
  rw [execute_phase] at now
  unfold phaseAfter at now
  split at now
  · split at now
    · exact absurd now before
    · cases now
  · split at now
    · cases now
    · exact absurd now before
  · cases now
  · split at now
    · exact absurd now before
    · rename_i some
      refine ⟨⟨running, next?_of_running running frames⟩, before, by simp, ?_, ?_,
        m.claimable s, (m.claimable s).length, ?_⟩
      · simpa using some
      · rw [history]
        exact List.mem_append_right _ (by simp [recorded])
      · rw [pushed]
        exact List.mem_append_left _ (by simp [Machine.pushed, some])
  · split at now
    · exact absurd ‹m.phase = .reclaiming› before
    · exact absurd now before
  · exact absurd now before

theorem turned_of_reclaiming (run : Run s past m) (reclaiming : m.phase = .reclaiming) :
    ∃ newer x older o, past = newer ++ x :: older ∧ Turned s newer x o m := by
  induction run with
  | new slots hooks => cases reclaiming
  | @issue past m operation run idle settled ih =>
    obtain ⟨newer, x, older, o, rfl, turned⟩ := ih reclaiming
    exact ⟨m :: newer, x, older, o, rfl, turned.issue reclaiming operation settled⟩
  | @step past m m' run made ih =>
    obtain ⟨o, f, rest, running, frames, -, rfl⟩ | ⟨-, h⟩ := step_cases (Tidy.reached run) made
    · by_cases before : m.phase = .reclaiming
      · obtain ⟨newer, x, older, o', rfl, turned⟩ := ih before
        exact ⟨m :: newer, x, older, o', rfl, turned.execute frames before reclaiming⟩
      · exact ⟨[], m, past, o, rfl, turned_of_execute frames running before reclaiming⟩
    · have before : m.phase = .reclaiming := by
        rcases h.phase with same | stopped
        · rwa [← same]
        · rw [stopped] at reclaiming
          cases reclaiming
      obtain ⟨newer, x, older, o, rfl, turned⟩ := ih before
      exact ⟨m :: newer, x, older, o, rfl, turned.tended before h⟩

theorem Turned.underWay (turned : Turned s newer x o m) (run : Run s past m) :
    UnderWay m.history x.passes := by
  refine ⟨⟨o, x.clock, x.slots, x.claimable s, turned.polled, turned.claimed⟩, ?_⟩
  obtain ⟨left, count, mem⟩ := turned.left
  cases (Stage.reached run x.passes).of_polled turned.polled with
  | stacked frames running => exact running
  | ended none =>
    have stacked : .releases x.passes left x.phase count ∈ framesOf x.passes (m.fiber o).frames :=
      List.mem_filter.mpr ⟨mem, by simp [Frame.pass?]⟩
    rw [none] at stacked
    cases stacked

/-- While the phase reads reclaiming, the pass that turned it so last is under way: it claimed
sessions, has not ended, and will put the phase it found back. Once no pass that claimed sessions is
under way any more, the reclaimer is polling or stopped. -/
theorem reclaiming_only_under_way (run : Run s past m) :
    (m.phase = .reclaiming → ∃ newer x older o, past = newer ++ x :: older ∧
      Turned s newer x o m ∧ UnderWay m.history x.passes) ∧
    ((∀ pass, ¬ UnderWay m.history pass) → m.phase = .polling ∨ m.phase = .stopped) := by
  have turned : m.phase = .reclaiming → ∃ newer x older o, past = newer ++ x :: older ∧
      Turned s newer x o m ∧ UnderWay m.history x.passes := by
    intro reclaiming
    obtain ⟨newer, x, older, o, split, turned⟩ := turned_of_reclaiming run reclaiming
    exact ⟨newer, x, older, o, split, turned, turned.underWay run⟩
  refine ⟨turned, fun none => ?_⟩
  cases phase : m.phase with
  | polling => exact .inl rfl
  | stopped => exact .inr rfl
  | reclaiming =>
    obtain ⟨-, x, -, -, -, -, underWay⟩ := turned phase
    exact absurd underWay (none x.passes)

def innerEnded : List Machine × Machine :=
  let before := new [plainSlot "a" 100, plainSlot "b" 100]
    [⟨"a", .setSlots [plainSlot "c" 100]⟩, ⟨"b", .reclaim⟩]
  trail .plain 12 [before] (before.issue .reclaim)

theorem reclaiming_only_under_way_nested :
    Run .plain innerEnded.1 innerEnded.2 ∧ .passEnded 1 1 ∈ innerEnded.2.history ∧
      innerEnded.2.phase = .reclaiming ∧ ∃ pass, UnderWay innerEnded.2.history pass := by
  have run : Run .plain innerEnded.1 innerEnded.2 :=
    ((Run.new _ _).issue .reclaim rfl rfl).trail 12
  have phase : innerEnded.2.phase = .reclaiming := by decide +kernel
  obtain ⟨-, x, -, -, -, -, underWay⟩ := (reclaiming_only_under_way run).1 phase
  refine ⟨run, ?_, phase, x.passes, underWay⟩
  exact List.mem_of_getElem? (i := 17) rfl

end Machine
end Reclaimer
end NodeFleet
