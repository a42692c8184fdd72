set_option autoImplicit false
namespace NodeFleet

def cutAt (c : Char) : List Char → List Char × Option (List Char)
  | [] => ([], none)
  | x :: xs => if x = c then ([], some xs) else (x :: (cutAt c xs).1, (cutAt c xs).2)

/-- All pieces between separators; a text without any is its own single piece. -/
def piecesAt (c : Char) : List Char → List (List Char)
  | [] => [[]]
  | x :: xs =>
    if x = c then [] :: piecesAt c xs
    else match piecesAt c xs with
      | [] => [[x]]
      | p :: ps => (x :: p) :: ps

def occursIn (p : List Char) : List Char → Bool
  | [] => p.isEmpty
  | x :: xs => p.isPrefixOf (x :: xs) || occursIn p xs

def holdsText (s p : String) : Bool := occursIn p.toList s.toList

theorem occursIn_iff {p cs : List Char} : occursIn p cs = true ↔ p <:+: cs := by
  induction cs with
  | nil => rw [occursIn, List.isEmpty_iff, List.infix_nil]
  | cons x xs ih =>
    rw [occursIn, Bool.or_eq_true, List.isPrefixOf_iff_prefix, ih, List.infix_cons_iff]

theorem holdsText_iff {s p : String} : holdsText s p = true ↔ p.toList <:+: s.toList :=
  occursIn_iff

theorem cutAt_fst (c : Char) (cs : List Char) : (cutAt c cs).1 = cs.takeWhile (· ≠ c) := by
  induction cs with
  | nil => rfl
  | cons x xs ih =>
    by_cases hx : x = c
    · simp [cutAt, hx]
    · simp [cutAt, hx, ih]

theorem cutAt_snd (c : Char) (cs : List Char) :
    (cutAt c cs).2.getD [] = (cs.dropWhile (· ≠ c)).drop 1 := by
  induction cs with
  | nil => rfl
  | cons x xs ih =>
    by_cases hx : x = c
    · simp [cutAt, hx]
    · simp [cutAt, hx, ih]

theorem cutAt_append {c : Char} {before : List Char} (free : c ∉ before) (after : List Char) :
    cutAt c (before ++ c :: after) = (before, some after) := by
  induction before with
  | nil => simp [cutAt]
  | cons x xs ih =>
    obtain ⟨first, rest⟩ := List.ne_and_not_mem_of_not_mem_cons free
    rw [List.cons_append, cutAt, if_neg (Ne.symm first), ih rest]

theorem cutAt_eq_some_iff {c : Char} {cs before after : List Char} :
    cutAt c cs = (before, some after) ↔ cs = before ++ c :: after ∧ c ∉ before := by
  constructor
  · intro cut
    induction cs generalizing before with
    | nil => cases cut
    | cons x xs ih =>
      rw [cutAt] at cut
      split at cut
      · rename_i here
        cases cut
        exact ⟨congrArg (· :: after) here, List.not_mem_nil⟩
      · rename_i further
        obtain ⟨rfl, rest⟩ := Prod.mk.inj cut
        obtain ⟨text, free⟩ := ih (Prod.ext rfl rest)
        exact ⟨congrArg (x :: ·) text,
          List.not_mem_cons_of_ne_of_not_mem (Ne.symm further) free⟩
  · rintro ⟨rfl, free⟩
    exact cutAt_append free after

theorem piecesAt_ne_nil (c : Char) (cs : List Char) : piecesAt c cs ≠ [] := by
  cases cs with
  | nil => simp [piecesAt]
  | cons x xs =>
    rw [piecesAt]
    split
    · simp
    · split <;> simp

theorem mem_of_mem_piecesAt {c x : Char} {cs piece : List Char} (mem : piece ∈ piecesAt c cs)
    (x_mem : x ∈ piece) : x ∈ cs := by
  induction cs generalizing piece with
  | nil =>
    rw [piecesAt, List.mem_singleton] at mem
    rwa [mem] at x_mem
  | cons y ys ih =>
    rw [piecesAt] at mem
    split at mem
    · rcases List.mem_cons.mp mem with rfl | mem
      · cases x_mem
      · exact List.mem_cons_of_mem y (ih mem x_mem)
    · cases pieces : piecesAt c ys with
      | nil => exact absurd pieces (piecesAt_ne_nil c ys)
      | cons p ps =>
        rw [pieces] at mem ih
        rcases List.mem_cons.mp mem with rfl | mem
        · rcases List.mem_cons.mp x_mem with rfl | x_mem
          · exact List.mem_cons_self
          · exact List.mem_cons_of_mem y (ih List.mem_cons_self x_mem)
        · exact List.mem_cons_of_mem y (ih (List.mem_cons_of_mem p mem) x_mem)

theorem not_mem_of_mem_piecesAt {c : Char} {cs piece : List Char} (mem : piece ∈ piecesAt c cs) :
    c ∉ piece := by
  induction cs generalizing piece with
  | nil =>
    rw [List.mem_singleton.mp mem]
    exact List.not_mem_nil
  | cons y ys ih =>
    rw [piecesAt] at mem
    split at mem
    · rcases List.mem_cons.mp mem with rfl | mem
      · exact List.not_mem_nil
      · exact ih mem
    · rename_i other
      cases pieces : piecesAt c ys with
      | nil => exact absurd pieces (piecesAt_ne_nil c ys)
      | cons p ps =>
        rw [pieces] at mem ih
        rcases List.mem_cons.mp mem with rfl | mem
        · exact List.not_mem_cons_of_ne_of_not_mem (Ne.symm other) (ih List.mem_cons_self)
        · exact ih (List.mem_cons_of_mem p mem)

theorem flatMap_piecesAt (c : Char) (cs : List Char) :
    (piecesAt c cs).flatMap (c :: ·) = c :: cs := by
  induction cs with
  | nil => rfl
  | cons x xs ih =>
    rw [piecesAt]
    split
    · rename_i same
      rw [List.flatMap_cons, ih, same]
      rfl
    · cases pieces : piecesAt c xs with
      | nil => exact absurd pieces (piecesAt_ne_nil c xs)
      | cons p ps =>
        rw [pieces, List.flatMap_cons, List.cons_append, List.cons.injEq] at ih
        rw [List.flatMap_cons, List.cons_append, List.cons_append, ih.2]

theorem piecesAt_append {c : Char} {s : List Char} (h : c ∉ s) (t : List Char) :
    piecesAt c (s ++ c :: t) = s :: piecesAt c t := by
  induction s with
  | nil => simp [piecesAt]
  | cons x xs ih =>
    obtain ⟨first, rest⟩ := List.ne_and_not_mem_of_not_mem_cons h
    rw [List.cons_append, piecesAt, if_neg (Ne.symm first), ih rest]

theorem piecesAt_of_not_mem {c : Char} {s : List Char} (h : c ∉ s) : piecesAt c s = [s] := by
  induction s with
  | nil => rfl
  | cons x xs ih =>
    obtain ⟨first, rest⟩ := List.ne_and_not_mem_of_not_mem_cons h
    rw [piecesAt, if_neg (Ne.symm first), ih rest]

theorem piecesAt_flatMap {c : Char} {pieces : List (List Char)} (h : ∀ s ∈ pieces, c ∉ s) :
    piecesAt c (pieces.flatMap (c :: ·)) = [] :: pieces := by
  have after (s : List Char) (free : c ∉ s) (rest : List (List Char))
      (ih : piecesAt c (rest.flatMap (c :: ·)) = [] :: rest) :
      piecesAt c (s ++ rest.flatMap (c :: ·)) = s :: rest := by
    cases rest with
    | nil => simpa using piecesAt_of_not_mem free
    | cons r rs =>
      rw [List.flatMap_cons, List.cons_append, piecesAt, if_pos rfl, List.cons.injEq] at ih
      rw [List.flatMap_cons, List.cons_append, piecesAt_append free, ih.2]
  induction pieces with
  | nil => rfl
  | cons s rest ih =>
    obtain ⟨free, others⟩ := List.forall_mem_cons.mp h
    rw [List.flatMap_cons, List.cons_append, piecesAt, if_pos rfl, after s free rest (ih others)]

end NodeFleet
