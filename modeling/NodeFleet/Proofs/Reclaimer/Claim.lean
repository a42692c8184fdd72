import NodeFleet.Reclaimer.Claim

set_option autoImplicit false
namespace NodeFleet
namespace Reclaimer

variable {threshold : Span} {terminal : SessionIds} {listed : List SlotSession}
  {slot : SlotSession} {id : String}

theorem mem_retained : id ∈ retained terminal listed ↔
    id ∈ terminal ∧ id ∈ listed.map (·.sessionId) := by
  simp [retained]

theorem mem_claim_terminal : id ∈ (claim threshold terminal listed).2 ↔
    id ∈ terminal ∨ id ∈ (claim threshold terminal listed).1.map (·.sessionId) := by
  induction listed generalizing terminal with
  | nil => simp [claim]
  | cons slot r ih =>
    simp only [claim]
    split
    · rw [ih, List.mem_append, List.mem_singleton, List.map_cons, List.mem_cons, or_assoc]
    · exact ih

theorem claim_claimed (h : slot ∈ (claim threshold terminal listed).1) :
    slot ∈ listed ∧ slot.isIdle threshold = true ∧ slot.sessionId ∉ terminal := by
  induction listed generalizing terminal with
  | nil => simp [claim] at h
  | cons first r ih =>
    simp only [claim] at h
    split at h
    · rename_i taken
      rcases List.mem_cons.mp h with rfl | h
      · exact ⟨List.mem_cons_self, taken⟩
      · obtain ⟨mem, idle, fresh⟩ := ih h
        exact ⟨List.mem_cons_of_mem _ mem, idle, fun ht => fresh (List.mem_append_left _ ht)⟩
    · obtain ⟨mem, idle, fresh⟩ := ih h
      exact ⟨List.mem_cons_of_mem _ mem, idle, fresh⟩

theorem claim_sublist : (claim threshold terminal listed).1.Sublist listed := by
  induction listed generalizing terminal with
  | nil => exact List.Sublist.refl []
  | cons first r ih =>
    simp only [claim]
    split
    · exact ih.cons_cons first
    · exact ih.cons first

theorem claim_nodup : ((claim threshold terminal listed).1.map (·.sessionId)).Nodup := by
  induction listed generalizing terminal with
  | nil => simp [claim]
  | cons first r ih =>
    simp only [claim]
    split
    · refine List.nodup_cons.mpr ⟨?_, ih⟩
      intro h
      obtain ⟨slot, mem, same⟩ := List.mem_map.mp h
      apply (claim_claimed mem).2.2
      rw [same]
      exact List.mem_append_right _ (List.mem_singleton_self _)
    · exact ih

theorem poll_claimed (h : slot ∈ (poll threshold terminal listed).1) :
    slot ∈ listed ∧ slot.isIdle threshold = true ∧ slot.sessionId ∉ terminal := by
  obtain ⟨mem, idle, fresh⟩ := claim_claimed h
  refine ⟨mem, idle, fun ht => fresh (mem_retained.mpr ⟨ht, ?_⟩)⟩
  exact List.mem_map_of_mem mem

theorem mem_poll_terminal : id ∈ (poll threshold terminal listed).2 ↔
    id ∈ terminal ∧ id ∈ listed.map (·.sessionId) ∨
      id ∈ (poll threshold terminal listed).1.map (·.sessionId) := by
  rw [poll, mem_claim_terminal, mem_retained]

def IsFirst (threshold : Span) (terminal : SessionIds) (listed : List SlotSession) (i : Nat) :
    Prop :=
  ∃ slot, listed[i]? = some slot ∧ slot.isIdle threshold = true ∧ slot.sessionId ∉ terminal ∧
    ∀ other ∈ listed.take i, other.isIdle threshold = true → other.sessionId ≠ slot.sessionId

/-- The claimed slots are the first idle ones of their sessions, in the order of the list. -/
structure Picks (threshold : Span) (terminal : SessionIds) (listed claimed : List SlotSession)
    (positions : List Nat) : Prop where
  ordered : positions.Pairwise (· < ·)
  firsts : ∀ i, i ∈ positions ↔ IsFirst threshold terminal listed i
  slots : claimed.map some = positions.map (listed[·]?)

theorem isFirst_zero : IsFirst threshold terminal (slot :: listed) 0 ↔
    slot.isIdle threshold = true ∧ slot.sessionId ∉ terminal := by
  constructor
  · rintro ⟨x, here, idle, fresh, -⟩
    obtain rfl := Option.some.inj here
    exact ⟨idle, fresh⟩
  · rintro ⟨idle, fresh⟩
    exact ⟨slot, rfl, idle, fresh, by simp⟩

theorem isFirst_behind_taken (idle : slot.isIdle threshold = true) (i : Nat) :
    IsFirst threshold terminal (slot :: listed) (i + 1) ↔
      IsFirst threshold (terminal ++ [slot.sessionId]) listed i := by
  refine exists_congr fun x => and_congr Iff.rfl (and_congr Iff.rfl ?_)
  rw [List.take_succ_cons, List.forall_mem_cons, List.mem_append, List.mem_singleton, not_or]
  constructor
  · rintro ⟨fresh, ne, earlier⟩
    exact ⟨⟨fresh, Ne.symm (ne idle)⟩, earlier⟩
  · rintro ⟨⟨fresh, ne⟩, earlier⟩
    exact ⟨fresh, fun _ => Ne.symm ne, earlier⟩

theorem isFirst_behind_left (left : ¬ (slot.isIdle threshold = true ∧ slot.sessionId ∉ terminal))
    (i : Nat) : IsFirst threshold terminal (slot :: listed) (i + 1) ↔
      IsFirst threshold terminal listed i := by
  refine exists_congr fun x => and_congr Iff.rfl (and_congr Iff.rfl (and_congr_right fun fresh => ?_))
  have apart : slot.isIdle threshold = true → slot.sessionId ≠ x.sessionId :=
    fun idle same => left ⟨idle, same ▸ fresh⟩
  rw [List.take_succ_cons, List.forall_mem_cons, and_iff_right apart]

section
variable {positions : List Nat} {claimed : List SlotSession} {after : SessionIds}

theorem Picks.left (h : Picks threshold after listed claimed positions)
    (shift : ∀ i, IsFirst threshold terminal (slot :: listed) (i + 1) ↔
      IsFirst threshold after listed i)
    (other : ¬ IsFirst threshold terminal (slot :: listed) 0) :
    Picks threshold terminal (slot :: listed) claimed (positions.map (· + 1)) where
  ordered := List.pairwise_map.mpr (h.ordered.imp fun lt => Nat.add_lt_add_right lt 1)
  firsts i := by
    cases i with
    | zero => simpa using other
    | succ i => simpa [h.firsts] using (shift i).symm
  slots := by
    rw [h.slots, List.map_map]
    rfl

theorem Picks.taken (h : Picks threshold after listed claimed positions)
    (shift : ∀ i, IsFirst threshold terminal (slot :: listed) (i + 1) ↔
      IsFirst threshold after listed i)
    (first : IsFirst threshold terminal (slot :: listed) 0) :
    Picks threshold terminal (slot :: listed) (slot :: claimed)
      (0 :: positions.map (· + 1)) where
  ordered := List.pairwise_cons.mpr
    ⟨by simp, List.pairwise_map.mpr (h.ordered.imp fun lt => Nat.add_lt_add_right lt 1)⟩
  firsts i := by
    cases i with
    | zero => simpa using first
    | succ i => simpa [h.firsts] using (shift i).symm
  slots := by
    rw [List.map_cons, List.map_cons, h.slots, List.map_map]
    rfl

end

theorem claim_picks (threshold : Span) (terminal : SessionIds) (listed : List SlotSession) :
    ∃ positions, Picks threshold terminal listed (claim threshold terminal listed).1 positions := by
  induction listed generalizing terminal with
  | nil => exact ⟨[], .nil, by simp [IsFirst], rfl⟩
  | cons slot r ih =>
    rw [claim]
    split
    · rename_i taken
      obtain ⟨positions, picks⟩ := ih (terminal ++ [slot.sessionId])
      exact ⟨_, picks.taken (isFirst_behind_taken taken.1) (isFirst_zero.mpr taken)⟩
    · rename_i left
      obtain ⟨positions, picks⟩ := ih terminal
      exact ⟨_, picks.left (isFirst_behind_left left) fun first => left (isFirst_zero.mp first)⟩

/-- Pruning does not change what is claimed: only listed sessions can be. -/
theorem poll_picks (threshold : Span) (terminal : SessionIds) (listed : List SlotSession) :
    ∃ positions, Picks threshold terminal listed (poll threshold terminal listed).1 positions := by
  obtain ⟨positions, picks⟩ := claim_picks threshold (retained terminal listed) listed
  refine ⟨positions, picks.ordered, fun i => (picks.firsts i).trans ?_, picks.slots⟩
  refine exists_congr fun slot => and_congr_right fun here =>
    and_congr Iff.rfl (and_congr ?_ Iff.rfl)
  have known : slot.sessionId ∈ listed.map (·.sessionId) :=
    List.mem_map_of_mem (List.mem_of_getElem? here)
  rw [mem_retained, and_iff_left known]

theorem mem_claim_of_idle (mem : slot ∈ listed) (idle : slot.isIdle threshold = true) :
    slot.sessionId ∈ (claim threshold terminal listed).2 := by
  induction listed generalizing terminal with
  | nil => cases mem
  | cons first r ih =>
    rw [claim]
    split
    · rcases List.mem_cons.mp mem with rfl | mem
      · exact mem_claim_terminal.mpr (.inl (List.mem_append_right _ (List.mem_singleton_self _)))
      · exact ih mem
    · rename_i left
      rcases List.mem_cons.mp mem with rfl | mem
      · have known : slot.sessionId ∈ terminal :=
          Classical.not_not.mp fun fresh => left ⟨idle, fresh⟩
        exact mem_claim_terminal.mpr (.inl known)
      · exact ih mem

theorem mem_poll_terminal_iff : id ∈ (poll threshold terminal listed).2 ↔
    id ∈ terminal ∧ id ∈ listed.map (·.sessionId) ∨
      ∃ slot ∈ listed, slot.isIdle threshold = true ∧ slot.sessionId = id := by
  constructor
  · intro after
    refine (mem_poll_terminal.mp after).imp_right fun claimed => ?_
    obtain ⟨slot, mem, rfl⟩ := List.mem_map.mp claimed
    obtain ⟨known, idle, -⟩ := poll_claimed mem
    exact ⟨slot, known, idle, rfl⟩
  · rintro (kept | ⟨slot, mem, idle, rfl⟩)
    · exact mem_poll_terminal.mpr (.inl kept)
    · exact mem_claim_of_idle mem idle

end Reclaimer
end NodeFleet
