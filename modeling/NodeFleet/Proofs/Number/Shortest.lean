import NodeFleet.Proofs.Number.Numeral
import NodeFleet.Proofs.Number.Rounding

set_option autoImplicit false
namespace NodeFleet

theorem not_isAlpha_of_isDigit {c : Char} (h : c.isDigit = true) : ¬ c.isAlpha = true := by
  intro letter
  have range := toNat_of_isAlpha letter
  simp only [Char.isDigit, Bool.and_eq_true, decide_eq_true_eq] at h
  have upper : c.toNat ≤ 57 := UInt32.le_iff_toNat_le.mp h.2
  omega

namespace Binary64

/-! ### The decimal scale -/

theorem bounds_of_length {num den : Nat} (hd : 0 < den) (large : den ≤ num) :
    (10 : ℚ) ^ (((toString (num / den)).length : Int) - 1) ≤ num / den ∧
      (num / den : ℚ) < 10 ^ ((toString (num / den)).length : Int) := by
  obtain ⟨low, high⟩ := pow_le_of_length (Nat.div_pos large hd) rfl
  have floor : ⌊(num / den : ℚ)⌋₊ = num / den := Nat.floor_div_eq_div num den
  have nonneg : (0 : ℚ) ≤ num / den := by positivity
  refine ⟨low.trans ?_, ?_⟩
  · rw [← floor]
    exact Nat.floor_le nonneg
  · rw [zpow_natCast] at high ⊢
    have whole : num / den < 10 ^ (toString (num / den)).length := by exact_mod_cast high
    rw [← floor, Nat.floor_lt nonneg] at whole
    exact_mod_cast whole

theorem decimalExponent_spec {num den : Nat} (hn : 0 < num) (hd : 0 < den) :
    (10 : ℚ) ^ decimalExponent num den ≤ num / den ∧
      (num / den : ℚ) < 10 ^ (decimalExponent num den + 1) := by
  have hn' : (0 : ℚ) < num := by exact_mod_cast hn
  have hd' : (0 : ℚ) < den := by exact_mod_cast hd
  rw [decimalExponent]
  split
  · rename_i large
    rw [sub_add_cancel]
    exact bounds_of_length hd large
  · rename_i small
    obtain ⟨low, high⟩ := bounds_of_length hn (not_le.mp small).le
    have some : 0 < (toString (den / num)).length := by
      rw [length_toString]
      exact List.length_pos_of_ne_nil Nat.toDigits_ne_nil
    generalize (toString (den / num)).length = k at low high some
    have least : (10 : ℚ) ^ (-(k : Int)) ≤ num / den := by
      rw [zpow_neg, inv_le_comm₀ (by positivity) (by positivity), inv_div]
      exact high.le
    have most : (num / den : ℚ) ≤ 10 ^ (-((k : Int) - 1)) := by
      rw [zpow_neg, le_inv_comm₀ (by positivity) (by positivity), inv_div]
      exact low
    have compare : den ≤ num * Nat.pow 10 (k - 1) ↔ (10 : ℚ) ^ (-((k : Int) - 1)) ≤ num / den := by
      have cast : (k : Int) - 1 = ((k - 1 : Nat) : Int) := by omega
      rw [cast, zpow_neg, zpow_natCast, inv_le_comm₀ (by positivity) (by positivity), inv_div,
        div_le_iff₀ hn', mul_comm]
      exact_mod_cast Iff.rfl
    dsimp only
    split
    · rename_i reaches
      refine ⟨compare.mp reaches, most.trans_lt ?_⟩
      exact zpow_lt_zpow_right₀ (by norm_num) (by omega)
    · rename_i short
      refine ⟨least, (not_le.mp (mt compare.mpr short)).trans_eq ?_⟩
      congr 1
      omega

theorem gridNeighbours_eq (num den : Nat) (p : Int) :
    gridNeighbours num den p = (⌊(num / den / 10 ^ p : ℚ)⌋₊, ⌊(num / den / 10 ^ p : ℚ)⌋₊ + 1) := by
  rw [gridNeighbours]
  split
  · rename_i negative
    obtain ⟨k, rfl⟩ := Int.exists_eq_neg_ofNat (Int.le_of_lt negative)
    have scaled : (num / den / 10 ^ (-(k : Int)) : ℚ) = ((num * Nat.pow 10 k : Nat) : ℚ) / den := by
      rw [cast_mul_pow, Nat.cast_ofNat, zpow_neg, zpow_natCast, div_inv_eq_mul, div_mul_eq_mul_div]
    rw [Int.natAbs_neg, Int.natAbs_natCast, scaled, Nat.floor_div_eq_div]
  · rename_i positive
    obtain ⟨k, rfl⟩ := Int.eq_ofNat_of_zero_le (Int.not_lt.mp positive)
    have scaled : (num / den / 10 ^ (k : Int) : ℚ) = num / ((den * Nat.pow 10 k : Nat) : ℚ) := by
      rw [cast_mul_pow, Nat.cast_ofNat, zpow_natCast, div_div]
    rw [Int.natAbs_natCast, scaled, Nat.floor_div_eq_div]

theorem ratio_pos (m : Nat) (e : Int) : 0 < (ratio m e).2 := by
  rw [ratio]
  split
  · exact Nat.pow_pos Nat.two_pos
  · exact Nat.one_pos

theorem ratio_eq (m : Nat) (e : Int) : ((ratio m e).1 / (ratio m e).2 : ℚ) = m * 2 ^ e := by
  rw [ratio]
  split
  · rename_i negative
    obtain ⟨k, rfl⟩ := Int.exists_eq_neg_ofNat (Int.le_of_lt negative)
    rw [Int.natAbs_neg, Int.natAbs_natCast, zpow_neg, zpow_natCast, ← div_eq_mul_inv]
    congr 1
    exact Nat.cast_pow 2 k
  · rename_i positive
    obtain ⟨k, rfl⟩ := Int.eq_ofNat_of_zero_le (Int.not_lt.mp positive)
    rw [Int.natAbs_natCast, cast_mul_pow, Nat.cast_ofNat, zpow_natCast, Nat.cast_one, div_one]

theorem decimalOf_eq_some {x : Binary64} {num den n d : Nat} {p : Int}
    (h : decimalOf x num den n = some (d, p)) : ofDecimal false d p = x := by
  rw [decimalOf] at h
  dsimp only at h
  split at h
  · rename_i low high
    split at h
    · obtain ⟨rfl, rfl⟩ := Prod.mk.inj (Option.some.inj h)
      exact eq_of_beq high
    · obtain ⟨rfl, rfl⟩ := Prod.mk.inj (Option.some.inj h)
      exact eq_of_beq low
  · rename_i low high
    obtain ⟨rfl, rfl⟩ := Prod.mk.inj (Option.some.inj h)
    exact eq_of_beq low
  · rename_i low high
    obtain ⟨rfl, rfl⟩ := Prod.mk.inj (Option.some.inj h)
    exact eq_of_beq high
  · cases h

theorem isSome_decimalOf {x : Binary64} {num den n : Nat} {p : Int}
    (scale : decimalExponent num den - ((n : Int) - 1) = p)
    (near : ofDecimal false (gridNeighbours num den p).1 p = x ∨
      ofDecimal false (gridNeighbours num den p).2 p = x) : (decimalOf x num den n).isSome := by
  rw [decimalOf, scale]
  dsimp only
  split
  · split <;> rfl
  · rfl
  · rfl
  · rename_i low high
    rcases near with near | near
    · exact absurd (beq_iff_eq.mpr near) (ne_true_of_eq_false low)
    · exact absurd (beq_iff_eq.mpr near) (ne_true_of_eq_false high)

/-- Decimals of 17 digits are closer to each other than the values that are kept. -/
theorem neighbour_reads_back {m : Nat} {e p : Int} (h : Kept m e)
    (fine : (10 : ℚ) ^ p * 10 ^ 16 ≤ m * 2 ^ e) :
    ofDecimal false ⌊(m * 2 ^ e / 10 ^ p : ℚ)⌋₊ p = .finite false m e ∨
      ofDecimal false (⌊(m * 2 ^ e / 10 ^ p : ℚ)⌋₊ + 1) p = .finite false m e := by
  have step : (0 : ℚ) < 2 ^ e := by positivity
  have grid : (0 : ℚ) < 10 ^ p := by positivity
  have fits : (m : ℚ) < 2 * leastFull := by exact_mod_cast h.fits
  have full : (leastFull : ℚ) = 4503599627370496 := by norm_num [leastFull]
  rw [full] at fits
  have half : (10 : ℚ) ^ p / 2 < 2 ^ e / 2 := by nlinarith
  have quarter (lowest : m = leastFull) : (10 : ℚ) ^ p / 2 < 2 ^ e / 4 := by
    have lowest : (m : ℚ) = leastFull := congrArg _ lowest
    rw [lowest, full] at fine
    linarith
  have nonneg : (0 : ℚ) ≤ m * 2 ^ e / 10 ^ p := by positivity
  have below := Nat.floor_le nonneg
  have above := Nat.lt_floor_add_one (m * 2 ^ e / 10 ^ p : ℚ)
  generalize ⌊(m * 2 ^ e / 10 ^ p : ℚ)⌋₊ = d at below above
  rw [le_div_iff₀ grid] at below
  rw [div_lt_iff₀ grid] at above
  rw [ofDecimal_eq, ofDecimal_eq]
  rcases le_or_gt (m * 2 ^ e - d * 10 ^ p : ℚ) (10 ^ p / 2) with lower | upper
  · left
    refine nearest_of_close false h (by linarith) (by linarith) fun lowest _ => ?_
    linarith [quarter lowest]
  · right
    push_cast
    refine nearest_of_close false h (by linarith) (by linarith) fun lowest _ => ?_
    linarith [quarter lowest]

theorem isSome_decimalOf_full {m : Nat} {e : Int} (h : Kept m e) :
    (decimalOf (.finite false m e) (ratio m e).1 (ratio m e).2 17).isSome := by
  have value := ratio_eq m e
  have den := ratio_pos m e
  have num : 0 < (ratio m e).1 := by
    have positive : (0 : ℚ) < (ratio m e).1 / (ratio m e).2 := by
      have some : (0 : ℚ) < m := by exact_mod_cast h.pos
      rw [value]
      positivity
    have den : (0 : ℚ) < (ratio m e).2 := by exact_mod_cast den
    exact_mod_cast (div_pos_iff_of_pos_right den).mp positive
  obtain ⟨low, -⟩ := decimalExponent_spec num den
  refine isSome_decimalOf rfl ?_
  rw [gridNeighbours_eq, value]
  refine neighbour_reads_back h ?_
  rw [value] at low
  refine le_trans (le_of_eq ?_) low
  rw [← zpow_natCast, ← zpow_add₀ (by norm_num)]
  congr 1
  omega

/-! ### The shortest decimal -/

theorem stripZeros_eq (n d : Nat) (p : Int) :
    ((stripZeros n (d, p)).1 * 10 ^ (stripZeros n (d, p)).2 : ℚ) = d * 10 ^ p := by
  induction n generalizing d p with
  | zero => rfl
  | succ n ih =>
    rw [stripZeros]
    split
    · rename_i ends
      have split : ((d / 10 * 10 : Nat) : ℚ) = d :=
        congrArg _ (Nat.div_mul_cancel (Nat.dvd_of_mod_eq_zero ends.2))
      rw [ih, zpow_add_one₀ (by norm_num), ← split]
      push_cast
      ring
    · rfl

/-- The digits that are printed belong to a decimal next to the value. -/
theorem nearest_shortest {negative : Bool} {m : Nat} {e : Int}
    (h : (Binary64.finite negative m e).IsKept) :
    nearest false ((shortest m e).1 * 10 ^ (shortest m e).2) = .finite false m e := by
  rcases h with ⟨rfl, rfl⟩ | kept
  · simp [shortest, nearest]
  rw [shortest, if_neg kept.pos.ne']
  dsimp only
  split
  · rename_i d found
    obtain ⟨i, -, found⟩ := List.exists_of_findSome?_eq_some found
    rw [stripZeros_eq, ← ofDecimal_eq, decimalOf_eq_some found]
  · rename_i none
    have all := List.findSome?_eq_none_iff.mp none 16 (by simp)
    have some := isSome_decimalOf_full kept
    rw [all] at some
    cases some

/-! ### Plain text -/

theorem digitsValue_append (cs : List Char) (n : Nat) :
    digitsValue (cs ++ List.replicate n '0') = 10 ^ n * digitsValue cs := by
  change Nat.ofDigitChars 10 _ 0 = _
  rw [Nat.ofDigitChars_append, Nat.ofDigitChars_replicate_zero]
  rfl

theorem positional_eq (d : Nat) (p : Int) : ∃ digits places, digits ≠ [] ∧
    (∀ c ∈ digits ++ places, c.isDigit = true) ∧
    (digitsValue (digits ++ places) : ℚ) * 10 ^ (-(places.length : Int)) = d * 10 ^ p ∧
    (positional d p).toList = digits ++ if places = [] then [] else '.' :: places := by
  have text : (toString d).toList = Nat.toDigits 10 d := Nat.toList_repr
  have all : ∀ c ∈ Nat.toDigits 10 d, c.isDigit = true := fun _ mem =>
    Nat.isDigit_of_mem_toDigits (by decide) (by decide) mem
  have zeros (k : Nat) : ∀ c ∈ List.replicate k '0', c.isDigit = true := fun c mem => by
    rw [List.eq_of_mem_replicate mem]
    rfl
  have value : digitsValue (Nat.toDigits 10 d) = d := digitsValue_zeros_append 0 d
  rw [positional, text]
  dsimp only
  split
  · rename_i whole
    obtain ⟨k, rfl⟩ := Int.eq_ofNat_of_zero_le whole
    let extra := List.replicate (if d = 0 then 0 else k) '0'
    refine ⟨Nat.toDigits 10 d ++ extra, [], ?_, ?_, ?_, ?_⟩
    · exact List.append_ne_nil_of_left_ne_nil Nat.toDigits_ne_nil _
    · rw [List.append_nil]
      exact List.forall_mem_append.mpr ⟨all, zeros _⟩
    · rw [List.append_nil, digitsValue_append, value]
      by_cases zero : d = 0
      · simp [zero]
      · simp [zero, mul_comm]
    · rw [String.toList_ofList, if_pos rfl, List.append_nil]
      rfl
  · rename_i fraction
    obtain ⟨k, rfl⟩ := Int.exists_eq_neg_ofNat (Int.le_of_lt (Int.not_le.mp fraction))
    have some : 0 < k := by omega
    rw [Int.natAbs_neg, Int.natAbs_natCast]
    split
    · rename_i short
      let places := List.replicate (k - (Nat.toDigits 10 d).length) '0' ++ Nat.toDigits 10 d
      have len : places.length = k := by
        rw [List.length_append, List.length_replicate]
        omega
      have ne : places ≠ [] := List.append_ne_nil_of_right_ne_nil _ Nat.toDigits_ne_nil
      refine ⟨['0'], places, List.cons_ne_nil _ _, ?_, ?_, ?_⟩
      · exact List.forall_mem_append.mpr ⟨zeros 1, List.forall_mem_append.mpr ⟨zeros _, all⟩⟩
      · have leading : ['0'] ++ places =
            List.replicate (k - (Nat.toDigits 10 d).length + 1) '0' ++ Nat.toDigits 10 d := rfl
        rw [leading, digitsValue_zeros_append, len]
      · rw [String.toList_ofList, if_neg ne]
        rfl
    · rename_i long
      let before := (Nat.toDigits 10 d).length - k
      have len : ((Nat.toDigits 10 d).drop before).length = k := by
        rw [List.length_drop]
        omega
      have ne : (Nat.toDigits 10 d).drop before ≠ [] := by
        rw [← List.length_pos_iff_ne_nil, len]
        exact some
      refine ⟨(Nat.toDigits 10 d).take before, (Nat.toDigits 10 d).drop before, ?_, ?_, ?_, ?_⟩
      · rw [← List.length_pos_iff_ne_nil, List.length_take]
        omega
      · rw [List.take_append_drop]
        exact all
      · rw [List.take_append_drop, value, len]
      · rw [String.toList_ofList, if_neg ne]

theorem readMagnitude?_positional (negative : Bool) (d : Nat) (p : Int) :
    readMagnitude? negative (positional d p).toList = some (nearest negative (d * 10 ^ p)) := by
  obtain ⟨digits, places, ne, all, value, text⟩ := positional_eq d p
  rw [text, ← value]
  by_cases whole : places = []
  · rw [if_pos whole]
    subst whole
    rw [List.append_nil] at all
    rw [readMagnitude?_unpointed all noDigit_nil nofun, if_neg ne, readExponent?, Option.map_some,
      ofDecimal_eq, List.append_nil]
    rfl
  · have some := List.append_ne_nil_of_left_ne_nil ne places
    have read := @readMagnitude?_pointed negative digits places [] some all noDigit_nil
    rw [List.append_nil] at read
    rw [if_neg whole, read, readExponent?, Option.map_some, ofDecimal_eq, Int.zero_sub]

theorem read?_signed (negative : Bool) {c : Char} (r : List Char) (digit : c.isDigit = true) :
    read? (signText negative ++ String.ofList (c :: r)) = readMagnitude? negative (c :: r) := by
  have letter (d : Char) (alpha : d.isAlpha = true) : c.toLower ≠ d := by
    intro same
    have own := Char.isAlpha_toLower_eq_isAlpha c
    rw [same, alpha] at own
    exact not_isAlpha_of_isDigit digit own.symm
  have unnamed (negative : Bool) :
      readUnsigned? negative (c :: r) = readMagnitude? negative (c :: r) := by
    simp [readUnsigned?, lowerChars, letter 'i' rfl, letter 'n' rfl]
  rw [read?_eq, String.toList_append, String.toList_ofList]
  cases negative with
  | true => exact unnamed true
  | false =>
    have minus : c ≠ '-' := by
      rintro rfl
      cases digit
    have plus : c ≠ '+' := by
      rintro rfl
      cases digit
    change readUnsigned? (takeSign (c :: r)).1 (takeSign (c :: r)).2 = _
    rw [takeSign_of_unsigned minus plus, unnamed]

theorem nearest_of_nearest {q : ℚ} {m : Nat} {e : Int} (h : nearest false q = .finite false m e)
    (negative : Bool) : nearest negative q = .finite negative m e := by
  rw [nearest] at h ⊢
  split
  · rename_i zero
    rw [if_pos zero] at h
    obtain ⟨-, rfl, rfl⟩ := Binary64.finite.inj h
    rfl
  · rename_i ne
    rw [if_neg ne, carried] at h
    rw [carried]
    generalize (if halfEven (q / 2 ^ binade q) = 2 * leastFull then (leastFull, binade q + 1)
      else (halfEven (q / 2 ^ binade q), binade q)) = grown at h ⊢
    dsimp only at h ⊢
    split at h
    · cases h
    · rename_i fits
      obtain ⟨-, rfl, rfl⟩ := Binary64.finite.inj h
      rw [if_neg fits]

/-- The text of a value reads as this value. -/
theorem read?_plainText {x : Binary64} (h : x.IsKept) : read? x.plainText = some x := by
  cases x with
  | nan => decide
  | infinite negative => cases negative <;> decide
  | finite negative m e =>
    obtain ⟨digits, places, ne, all, -, text⟩ := positional_eq (shortest m e).1 (shortest m e).2
    obtain ⟨c, r, rfl⟩ := List.exists_cons_of_ne_nil ne
    have read := readMagnitude?_positional negative (shortest m e).1 (shortest m e).2
    rw [nearest_of_nearest (nearest_shortest h)] at read
    rw [plainText, ← String.ofList_toList (s := positional _ _), text, List.cons_append,
      read?_signed negative _ (all c List.mem_cons_self), ← List.cons_append, ← text, read]

theorem isKept_readUnsigned? {negative : Bool} {cs : List Char} {x : Binary64}
    (h : readUnsigned? negative cs = some x) : x.IsKept := by
  have decimal (digits : Nat) (exponent : Int) : (ofDecimal negative digits exponent).IsKept := by
    rw [ofDecimal_eq]
    exact isKept_nearest negative (by positivity)
  rw [readUnsigned?] at h
  split at h
  · obtain rfl := Option.some.inj h
    trivial
  split at h
  · obtain rfl := Option.some.inj h
    trivial
  cases isSome_readMagnitude?.mp (Option.isSome_of_eq_some h) with
  | whole ne all exponent =>
    obtain ⟨stop, point⟩ := exponent.head
    rw [readMagnitude?_unpointed all stop point, if_neg ne] at h
    obtain ⟨e, -, rfl⟩ := Option.map_eq_some_iff.mp h
    exact decimal _ _
  | pointed ne all exponent =>
    rw [readMagnitude?_pointed ne all exponent.head.1] at h
    obtain ⟨e, -, rfl⟩ := Option.map_eq_some_iff.mp h
    exact decimal _ _

/-- The text of a value that was read reads as the same value again. -/
theorem read?_plainText_of_read? {s : String} {x : Binary64} (h : read? s = some x) :
    read? x.plainText = some x :=
  read?_plainText (isKept_readUnsigned? h)

end Binary64
end NodeFleet
