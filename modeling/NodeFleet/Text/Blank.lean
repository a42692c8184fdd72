set_option autoImplicit false
namespace NodeFleet

/-- Characters of the property `White_Space`, as closed ranges of code points. -/
def blankRanges : List (Nat × Nat) :=
  [(0x09, 0x0d), (0x20, 0x20), (0x85, 0x85), (0xa0, 0xa0), (0x1680, 0x1680), (0x2000, 0x200a),
    (0x2028, 0x2029), (0x202f, 0x202f), (0x205f, 0x205f), (0x3000, 0x3000)]

def isBlankChar (c : Char) : Bool :=
  blankRanges.any fun r => r.1 ≤ c.toNat && c.toNat ≤ r.2

def isBlank (s : String) : Bool := s.toList.all isBlankChar

def trimStart (cs : List Char) : List Char := cs.dropWhile isBlankChar

def trimEnd (cs : List Char) : List Char := (cs.reverse.dropWhile isBlankChar).reverse

theorem isBlankChar_of_isDigit {c : Char} (h : c.isDigit = true) : isBlankChar c = false := by
  simp only [Char.isDigit, Bool.and_eq_true, decide_eq_true_eq] at h
  have lower : 48 ≤ c.toNat := UInt32.le_iff_toNat_le.mp h.1
  have upper : c.toNat ≤ 57 := UInt32.le_iff_toNat_le.mp h.2
  simp only [isBlankChar, blankRanges, List.any_cons, List.any_nil, Bool.or_false,
    Bool.or_eq_false_iff, Bool.and_eq_false_iff, decide_eq_false_iff_not]
  omega

theorem toNat_of_isAlpha {c : Char} (h : c.isAlpha = true) :
    (65 ≤ c.toNat ∧ c.toNat ≤ 90) ∨ (97 ≤ c.toNat ∧ c.toNat ≤ 122) := by
  have letter : c.isUpper = true ∨ c.isLower = true := Bool.or_eq_true_iff.mp h
  rcases letter with upper | lower
  · have range : c.val ≥ 65 ∧ c.val ≤ 90 := of_decide_eq_true upper
    exact .inl ⟨UInt32.le_iff_toNat_le.mp range.1, UInt32.le_iff_toNat_le.mp range.2⟩
  · have range : decide (c.val ≥ 97) = true ∧ decide (c.val ≤ 122) = true :=
      Bool.and_eq_true_iff.mp lower
    exact .inr ⟨UInt32.le_iff_toNat_le.mp (of_decide_eq_true range.1),
      UInt32.le_iff_toNat_le.mp (of_decide_eq_true range.2)⟩

theorem isBlankChar_of_isAlpha {c : Char} (h : c.isAlpha = true) : isBlankChar c = false := by
  have range := toNat_of_isAlpha h
  simp only [isBlankChar, blankRanges, List.any_cons, List.any_nil, Bool.or_false,
    Bool.or_eq_false_iff, Bool.and_eq_false_iff, decide_eq_false_iff_not]
  omega

theorem trimStart_cons {c : Char} (r : List Char) (h : isBlankChar c = false) :
    trimStart (c :: r) = c :: r := by
  simp [trimStart, h]

theorem not_isBlank_iff {s : String} :
    ¬ isBlank s ↔ ∃ c ∈ s.toList, isBlankChar c = false := by
  simp [isBlank]

end NodeFleet
