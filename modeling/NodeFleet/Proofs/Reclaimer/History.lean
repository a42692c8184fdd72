import NodeFleet.Proofs.Reclaimer.Claim
import NodeFleet.Proofs.Reclaimer.Lifecycle

set_option autoImplicit false
namespace NodeFleet
namespace Reclaimer

variable {s : Setup} {past : List Machine} {m m' x : Machine}

theorem split_append {history new before after : List Occurrence} {e : Occurrence}
    (h : history ++ new = before ++ e :: after) :
    (∃ rest, history = before ++ e :: rest ∧ after = rest ++ new) ∨
      ∃ between, before = history ++ between ∧ new = between ++ e :: after := by
  rcases List.append_eq_append_iff.mp h with ⟨between, old, rfl⟩ | ⟨_ | ⟨x, rest⟩, old, same⟩
  · exact .inr ⟨between, old, rfl⟩
  · exact .inr ⟨[], by simpa using old.symm, same.symm⟩
  · rw [List.cons_append, List.cons.injEq] at same
    obtain ⟨rfl, same⟩ := same
    exact .inl ⟨rest, old, same⟩

theorem split_concat {history before after : List Occurrence} {e x : Occurrence}
    (h : history ++ [e] = before ++ x :: after) :
    (before = history ∧ x = e) ∨ ∃ rest, after = rest ++ [e] ∧ history = before ++ x :: rest := by
  rcases split_append h with ⟨rest, old, same⟩ | ⟨between, rfl, same⟩
  · exact .inr ⟨rest, same, old⟩
  · obtain ⟨rfl, same⟩ | ⟨-, none⟩ := List.singleton_eq_append_iff.mp same
    · exact .inl ⟨List.append_nil _, (List.cons.inj same).1.symm⟩
    · cases none

namespace Machine

theorem step_history (tidy : m.Tidy) (h : m.step s = some m') :
    ∃ new, m'.history = m.history ++ new ∧
      ((∃ o f rest, m.running = some o ∧ (m.fiber o).frames = f :: rest ∧ m.waits f = false ∧
          m' = execute s m o rest f ∧ new = m.recorded s o f) ∨
        Tended s m m' ∧ ∃ notes : List Note, new = notes.map .noted) := by
  obtain ⟨o, f, rest, running, frames, waits, rfl⟩ | ⟨-, h⟩ := step_cases tidy h
  · exact ⟨_, execute_history, .inl ⟨o, f, rest, running, frames, waits, rfl, rfl⟩⟩
  · obtain ⟨notes, hn⟩ := h.history
    exact ⟨_, hn, .inr ⟨h, notes, rfl⟩⟩

theorem run_history (tidy : m.Tidy) (limit : Nat) :
    m.history <+: (run s limit m).history ∧ (run s limit m).Tidy := by
  induction limit generalizing m with
  | zero => exact ⟨List.prefix_rfl, tidy⟩
  | succ limit ih =>
    rw [run]
    split
    · exact ⟨List.prefix_rfl, tidy⟩
    · rename_i m' made
      obtain ⟨new, grown, -⟩ := step_history tidy made
      obtain ⟨longer, tidy'⟩ := ih (tidy.step made)
      exact ⟨List.IsPrefix.trans ⟨new, grown.symm⟩ longer, tidy'⟩

theorem operate_history (tidy : m.Tidy) (operation : Operation) :
    m.history <+: (m.operate s operation).history ∧ (m.operate s operation).Tidy :=
  run_history (tidy.issue operation) _

/-- The ways in which a frame leaves something on record. -/
inductive Records (s : Setup) (m : Machine) (o : Owner) : Frame → List Occurrence → Prop
  | completes (slot : SlotSession) (fresh : slot.sessionId ∉ m.terminal) :
      Records s m o (.perform (.complete slot))
        (.completed slot.sessionId :: .noted (.sessionCompleted s.proxy slot.sessionId) ::
          measured s .completed slot ++ [.captured none slot.sessionId true])
  | notes (f : Frame) (n : Note) : Records s m o f [.noted n]
  | claims : Records s m o .poll [.polled m.passes o m.clock m.slots (m.claimable s)]
  | idles (none : (m.claimable s).isEmpty) : Records s m o .poll
      [.polled m.passes o m.clock m.slots (m.claimable s), .passEnded m.passes 0]
  | ends (pass : Nat) (previous : Phase) (count : Nat) :
      Records s m o (.releases pass [] previous count) [.passEnded pass count]
  | releases (pass : Nat) (slot : SlotSession) (left : List SlotSession) (previous : Phase)
      (count : Nat) : Records s m o (.releases pass (slot :: left) previous count)
        (.noted (.releasing s.proxy slot.slotId slot.sessionId) :: measured s .reclaimed slot ++
          [.released pass slot .orphan m.phase m.slots])
  | captures (pass : Nat) (id : String) :
      Records s m o (.capture pass id) [.captured (some pass) id false]
  | hookEnds : Records s m o .hookEnd [.hooked (m.fiber o).reply]
  | nothing (f : Frame) : Records s m o f []

theorem records (s : Setup) (m : Machine) (o : Owner) (f : Frame) :
    Records s m o f (m.recorded s o f) := by
  cases f with
  | perform operation =>
    cases operation with
    | complete slot =>
      rw [recorded]
      split
      · exact .nothing _
      · exact .completes slot ‹_›
    | start =>
      rw [recorded]
      split
      · exact .nothing _
      · exact .notes _ _
    | setSlots | reclaim | stop | phase | advance => exact .nothing _
  | poll =>
    rw [recorded]
    split
    · exact .idles ‹_›
    · exact .claims
  | releases pass left previous count =>
    cases left with
    | nil => exact .ends pass previous count
    | cons slot left => exact .releases pass slot left previous count
  | awaitEnd id =>
    rw [recorded]
    split
    · exact .notes _ _
    · exact .nothing _
  | capture pass id => exact .captures pass id
  | hookEnd => exact .hookEnds
  | sleep wake => exact .nothing _

variable {o : Owner} {f : Frame} {pass time : Nat} {owner : Owner}
  {listed claimed occupied : List SlotSession} {slot : SlotSession} {reason : Reason}
  {phase : Phase}

theorem polled_of_mem_recorded (h : .polled pass owner time listed claimed ∈ m.recorded s o f) :
    f = .poll ∧ pass = m.passes ∧ owner = o ∧ time = m.clock ∧ listed = m.slots ∧
      claimed = m.claimable s := by
  have records := records s m o f
  generalize m.recorded s o f = made at h records
  cases records with
  | claims => simpa using h
  | idles => simpa using h
  | _ => simp [measured] at h

theorem released_of_mem_recorded
    (h : .released pass slot reason phase occupied ∈ m.recorded s o f) :
    ∃ left previous count, f = .releases pass (slot :: left) previous count ∧ reason = .orphan ∧
      phase = m.phase ∧ occupied = m.slots := by
  have records := records s m o f
  generalize m.recorded s o f = made at h records
  cases records with
  | releases q x left previous count =>
    simp only [measured, List.cons_append, List.nil_append, List.mem_cons, reduceCtorEq,
      Occurrence.released.injEq, List.not_mem_nil, or_false, false_or] at h
    obtain ⟨rfl, rfl, rfl, rfl, rfl⟩ := h
    exact ⟨left, previous, count, rfl, rfl, rfl, rfl⟩
  | _ => simp [measured] at h

end Machine

theorem Run.history_le (run : Run s past m) (h : x ∈ past) : x.history <+: m.history := by
  induction run with
  | new => cases h
  | issue operation _ _ _ ih =>
    rcases List.mem_cons.mp h with rfl | h
    · exact List.prefix_rfl
    · exact ih h
  | step run hs ih =>
    obtain ⟨new, hn, -⟩ := Machine.step_history (Machine.Tidy.reached run) hs
    rw [hn]
    rcases List.mem_cons.mp h with rfl | h
    · exact List.prefix_append _ _
    · exact (ih h).trans (List.prefix_append _ _)

/-- Whatever is on record was noted, or recorded by a frame that was executed on the way. -/
theorem Run.recorded_split (run : Run s past m) {before after : List Occurrence} {e : Occurrence}
    (split : m.history = before ++ e :: after) :
    (∃ n, e = .noted n) ∨ ∃ older x o f rest first last, Run s older x ∧ older ⊆ past ∧
      before = x.history ++ first ∧ x.recorded s o f = first ++ e :: last ∧
      x.running = some o ∧ (x.fiber o).frames = f :: rest := by
  induction run generalizing after with
  | new => simp [Machine.new] at split
  | issue operation _ _ _ ih =>
    rcases ih split with noted | ⟨older, x, o, f, rest, first, last, run, known, found⟩
    · exact .inl noted
    · exact .inr ⟨older, x, o, f, rest, first, last, run, List.subset_cons_of_subset _ known, found⟩
  | @step past m m' run hs ih =>
    obtain ⟨new, hn, hnew⟩ := Machine.step_history (Machine.Tidy.reached run) hs
    rw [hn] at split
    rcases split_append split with ⟨rest, old, -⟩ | ⟨between, rfl, rfl⟩
    · rcases ih old with noted | ⟨older, x, o, f, rest, first, last, run, known, found⟩
      · exact .inl noted
      · exact .inr ⟨older, x, o, f, rest, first, last, run, List.subset_cons_of_subset _ known,
          found⟩
    · obtain ⟨o, f, rest, running, frames, -, -, recorded⟩ | ⟨-, notes, noted⟩ := hnew
      · exact .inr ⟨past, m, o, f, rest, between, after, run, List.subset_cons_self m past, rfl,
          recorded.symm, running, frames⟩
      · have mem : e ∈ notes.map .noted := by
          rw [← noted]
          exact List.mem_append_right _ List.mem_cons_self
        obtain ⟨n, -, rfl⟩ := List.mem_map.mp mem
        exact .inl ⟨n, rfl⟩

theorem Run.recorded_at (run : Run s past m) {before after : List Occurrence} {e : Occurrence}
    (split : m.history = before ++ e :: after) :
    (∃ n, e = .noted n) ∨ ∃ older x o f rest, Run s older x ∧ older ⊆ past ∧
      x.history <+: before ∧ x.running = some o ∧ (x.fiber o).frames = f :: rest ∧
      e ∈ x.recorded s o f := by
  rcases run.recorded_split split with
    noted | ⟨older, x, o, f, rest, first, last, run, known, rfl, recorded, running, frames⟩
  · exact .inl noted
  · refine .inr ⟨older, x, o, f, rest, run, known, List.prefix_append _ _, running, frames, ?_⟩
    rw [recorded]
    exact List.mem_append_right _ List.mem_cons_self

theorem Run.recorded_by (run : Run s past m) {e : Occurrence} (mem : e ∈ m.history)
    (noted : ∀ n, e ≠ .noted n) : ∃ newer x older o f rest, past = newer ++ x :: older ∧
      Run s older x ∧ x.running = some o ∧ (x.fiber o).frames = f :: rest ∧ x.waits f = false ∧
      e ∈ x.recorded s o f ∧ x.history ++ x.recorded s o f <+: m.history := by
  induction run with
  | new slots hooks => cases mem
  | @issue past m _ _ _ _ ih =>
    obtain ⟨newer, x, older, o, f, rest, rfl, found⟩ := ih mem
    exact ⟨m :: newer, x, older, o, f, rest, rfl, found⟩
  | @step past m m' run made ih =>
    obtain ⟨new, grown, made⟩ := Machine.step_history (Machine.Tidy.reached run) made
    rw [grown] at mem ⊢
    rcases List.mem_append.mp mem with old | mem
    · obtain ⟨newer, x, older, o, f, rest, rfl, earlier, running, frames, waits, found, le⟩ :=
        ih old
      exact ⟨m :: newer, x, older, o, f, rest, rfl, earlier, running, frames, waits, found,
        le.trans (List.prefix_append _ _)⟩
    · obtain ⟨o, f, rest, running, frames, waits, -, rfl⟩ | ⟨-, notes, rfl⟩ := made
      · exact ⟨[], m, past, o, f, rest, rfl, run, running, frames, waits, mem, List.prefix_rfl⟩
      · obtain ⟨n, -, rfl⟩ := List.mem_map.mp mem
        exact absurd rfl (noted n)

/-- Every poll on record claimed what a poll of that list claims. -/
theorem Run.polled (run : Run s past m) {pass time : Nat} {owner : Owner}
    {listed claimed : List SlotSession}
    (h : .polled pass owner time listed claimed ∈ m.history) :
    ∃ terminal, claimed = (poll s.threshold terminal listed).1 := by
  obtain ⟨before, after, split⟩ := List.append_of_mem h
  obtain ⟨n, noted⟩ | ⟨-, x, o, f, -, -, -, -, -, -, recorded⟩ := run.recorded_at split
  · cases noted
  · obtain ⟨-, -, -, -, rfl, rfl⟩ := Machine.polled_of_mem_recorded recorded
    exact ⟨x.terminal, rfl⟩

end Reclaimer
end NodeFleet
