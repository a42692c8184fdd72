import Mathlib
import NodeFleet.Number.Binary64
/-!
Rounding to 64 bits as a function of the exact magnitude, however it is given as a quotient or as a
decimal. A magnitude less than half a step away from a value that is kept is rounded to that value.
-/

set_option autoImplicit false
namespace NodeFleet
namespace Binary64

def binade (q : ℚ) : Int := max (Int.log 2 q - 52) (-1074)

def halfEven (q : ℚ) : Nat :=
  let n := ⌊q⌋₊
  if 2 * (q - n) < 1 then n
  else if 1 < 2 * (q - n) then n + 1
  else if n % 2 = 0 then n else n + 1

/-- The value of a rounded mantissa; with one binary digit too many it belongs to the next binade. -/
def carried (negative : Bool) (m : Nat) (e : Int) : Binary64 :=
  let (m, e) := if m = 2 * leastFull then (leastFull, e + 1) else (m, e)
  if 971 < e then .infinite negative else .finite negative m e

def nearest (negative : Bool) (q : ℚ) : Binary64 :=
  if q = 0 then .finite negative 0 (-1074)
  else carried negative (halfEven (q / 2 ^ binade q)) (binade q)

theorem roundQuotient_eq (num : Nat) {den : Nat} (pos : 0 < den) :
    roundQuotient num den = halfEven (num / den) := by
  have floor : ⌊(num / den : ℚ)⌋₊ = num / den := Nat.floor_div_eq_div num den
  have fraction : (num / den : ℚ) - (num / den : Nat) = (num % den : Nat) / den := by
    have split : ((den * (num / den) + num % den : Nat) : ℚ) = num := by rw [Nat.div_add_mod]
    push_cast at split
    field_simp
    linarith
  have pos' : (0 : ℚ) < den := by exact_mod_cast pos
  have below : 2 * (((num % den : Nat) : ℚ) / den) < 1 ↔ 2 * (num % den) < den := by
    rw [← mul_div_assoc, div_lt_one pos']
    exact_mod_cast Iff.rfl
  have above : 1 < 2 * (((num % den : Nat) : ℚ) / den) ↔ den < 2 * (num % den) := by
    rw [← mul_div_assoc, one_lt_div pos']
    exact_mod_cast Iff.rfl
  simp only [roundQuotient, halfEven, floor, fraction, below, above]

theorem cast_mul_pow (n b k : Nat) : ((n * Nat.pow b k : Nat) : ℚ) = n * (b : ℚ) ^ k := by
  rw [Nat.cast_mul]
  exact congrArg _ (Nat.cast_pow b k)

theorem scaled_pos (num : Nat) {den : Nat} (pos : 0 < den) (e : Int) : 0 < (scaled num den e).2 := by
  rw [scaled]
  split
  · exact pos
  · exact Nat.mul_pos pos (Nat.pow_pos Nat.two_pos)

theorem scaled_ratio (num den : Nat) (e : Int) :
    ((scaled num den e).1 / (scaled num den e).2 : ℚ) = num / den / 2 ^ e := by
  rw [scaled]
  split
  · rename_i negative
    obtain ⟨k, rfl⟩ := Int.exists_eq_neg_ofNat (Int.le_of_lt negative)
    rw [Int.natAbs_neg, Int.natAbs_natCast, cast_mul_pow, Nat.cast_ofNat, zpow_neg, zpow_natCast,
      div_inv_eq_mul]
    ring
  · rename_i positive
    obtain ⟨k, rfl⟩ := Int.eq_ofNat_of_zero_le (Int.not_lt.mp positive)
    rw [Int.natAbs_natCast, cast_mul_pow, Nat.cast_ofNat, zpow_natCast, div_div]

theorem log_eq {b : Nat} (large : 1 < b) {q : ℚ} (pos : 0 < q) {k : Int} (low : (b : ℚ) ^ k ≤ q)
    (high : q < (b : ℚ) ^ (k + 1)) : Int.log b q = k := by
  have least := (Int.zpow_le_iff_le_log large pos).mp low
  have most := (Int.lt_zpow_iff_log_lt large pos).mp high
  omega

theorem log2_bounds {n : Nat} (pos : 0 < n) :
    (2 : ℚ) ^ (Nat.log2 n : Int) ≤ n ∧ (n : ℚ) < 2 ^ (Nat.log2 n : Int) * 2 := by
  rw [zpow_natCast, ← pow_succ]
  exact ⟨by exact_mod_cast Nat.log2_self_le pos.ne', by exact_mod_cast Nat.lt_log2_self⟩

theorem quotient_bounds {num den : Nat} (hn : 0 < num) (hd : 0 < den) {guess : Int}
    (h : guess = (Nat.log2 num : Int) - (Nat.log2 den : Int) - 52) :
    (2 : ℚ) ^ (guess + 51) < num / den ∧ (num / den : ℚ) < 2 ^ (guess + 53) := by
  obtain ⟨num_low, num_high⟩ := log2_bounds hn
  obtain ⟨den_low, den_high⟩ := log2_bounds hd
  have power (k : Int) : (2 : ℚ) ^ (guess + k) =
      2 ^ (Nat.log2 num : Int) / 2 ^ (Nat.log2 den : Int) * 2 ^ (k - 52) := by
    rw [← zpow_sub₀ two_ne_zero, ← zpow_add₀ two_ne_zero]
    congr 1
    omega
  constructor
  · rw [power, div_mul_eq_mul_div, div_lt_div_iff₀ (by positivity) (by positivity)]
    have half : (2 : ℚ) ^ ((51 : Int) - 52) = 1 / 2 := by norm_num
    rw [half]
    nlinarith
  · rw [power, div_mul_eq_mul_div, div_lt_div_iff₀ (by positivity) (by positivity)]
    have two : (2 : ℚ) ^ ((53 : Int) - 52) = 2 := by norm_num
    rw [two]
    nlinarith

theorem leastFull_eq : (leastFull : ℚ) = 2 ^ (52 : Int) := by norm_num [leastFull]

theorem scaled_lt_iff (num : Nat) {den : Nat} (pos : 0 < den) (e : Int) :
    (scaled num den e).1 < leastFull * (scaled num den e).2 ↔
      (num / den : ℚ) < 2 ^ (e + 52) := by
  have pos' : (0 : ℚ) < (scaled num den e).2 := by exact_mod_cast scaled_pos num pos e
  rw [add_comm e, zpow_add₀ two_ne_zero, ← div_lt_iff₀ (by positivity), ← scaled_ratio num den e,
    div_lt_iff₀ pos', ← leastFull_eq]
  exact_mod_cast Iff.rfl

theorem exponentFor_eq {num den : Nat} (hn : 0 < num) (hd : 0 < den) :
    exponentFor num den = binade (num / den) := by
  let guess : Int := (Nat.log2 num : Int) - (Nat.log2 den : Int) - 52
  have q_pos : (0 : ℚ) < num / den := by positivity
  obtain ⟨low, high⟩ := @quotient_bounds num den hn hd guess rfl
  have compare := scaled_lt_iff num hd guess
  have log : Int.log 2 (num / den : ℚ) =
      (if (scaled num den guess).1 < leastFull * (scaled num den guess).2 then guess - 1
        else guess) + 52 := by
    split
    · rename_i short
      refine log_eq (b := 2) (by decide) q_pos ?_ ?_
      · rw [show guess - 1 + 52 = guess + 51 by omega]
        exact low.le
      · rw [show guess - 1 + 52 + 1 = guess + 52 by omega]
        exact compare.mp short
    · rename_i full
      refine log_eq (b := 2) (by decide) q_pos (not_lt.mp (mt compare.mpr full)) ?_
      rw [show guess + 52 + 1 = guess + 53 by omega]
      exact high
  rw [binade, log, exponentFor]
  simp only [add_sub_cancel_right]
  rfl

theorem round_eq (negative : Bool) (num : Nat) {den : Nat} (pos : 0 < den) :
    round negative num den = nearest negative (num / den) := by
  rw [round, nearest]
  by_cases zero : num = 0
  · simp [zero]
  · have q_ne : (num / den : ℚ) ≠ 0 := by positivity
    have wrong : ¬ (num = 0 ∨ den = 0) := by omega
    rw [if_neg wrong, if_neg q_ne, exponentFor_eq (Nat.pos_of_ne_zero zero) pos]
    dsimp only
    rw [roundQuotient_eq _ (scaled_pos num pos _), scaled_ratio]
    rfl

/-- A nonzero value as it is kept: with a full mantissa, or with the least exponent. -/
structure Kept (m : Nat) (e : Int) : Prop where
  pos : 0 < m
  fits : m < 2 * leastFull
  least : -1074 ≤ e
  most : e ≤ 971
  full : leastFull ≤ m ∨ e = -1074

theorem halfEven_of_close {q : ℚ} {m : Nat} (nonneg : 0 ≤ q) (below : m - q < 1 / 2)
    (above : q - m < 1 / 2) : halfEven q = m := by
  rcases le_or_gt (m : ℚ) q with up | down
  · have floor : ⌊q⌋₊ = m := (Nat.floor_eq_iff nonneg).mpr ⟨up, by linarith⟩
    rw [halfEven, floor]
    exact if_pos (by linarith)
  · obtain ⟨n, rfl⟩ : ∃ n, m = n + 1 := by
      refine Nat.exists_eq_succ_of_ne_zero ?_
      rintro rfl
      exact absurd down (by simpa using nonneg)
    push_cast at below above down
    have floor : ⌊q⌋₊ = n := (Nat.floor_eq_iff nonneg).mpr ⟨by linarith, by linarith⟩
    rw [halfEven, floor, if_neg (by linarith), if_pos (by linarith)]

theorem binade_eq {q : ℚ} {e : Int} (pos : 0 < q) (least : -1074 ≤ e)
    (low : leastFull * 2 ^ e ≤ q ∨ e = -1074) (high : q < 2 * leastFull * 2 ^ e) :
    binade q = e := by
  have high' : q < ((2 : Nat) : ℚ) ^ (52 + e + 1) := by
    rw [zpow_add_one₀ (by norm_num), zpow_add₀ (by norm_num)]
    rw [leastFull_eq] at high
    push_cast
    linarith
  rcases low with low | rfl
  · have low' : ((2 : Nat) : ℚ) ^ (52 + e) ≤ q := by
      rw [zpow_add₀ (by norm_num)]
      rwa [leastFull_eq] at low
    rw [binade, log_eq (by decide) pos low' high']
    omega
  · have most := (Int.lt_zpow_iff_log_lt (by decide) pos).mp high'
    rw [binade]
    omega

theorem carried_of_fits {m : Nat} (fits : m < 2 * leastFull) {e : Int} (most : e ≤ 971)
    (negative : Bool) : carried negative m e = .finite negative m e := by
  rw [carried, if_neg fits.ne]
  exact if_neg (not_lt.mpr most)

section
variable {m : Nat} {e : Int} {q : ℚ}

/-- What is closer to a kept value than half a step is rounded to it. Below the least full mantissa
the steps are half as wide. -/
theorem nearest_of_close (negative : Bool) (h : Kept m e) (above : q - m * 2 ^ e < 2 ^ e / 2)
    (below : m * 2 ^ e - q < 2 ^ e / 2)
    (lowest : m = leastFull → -1074 < e → m * 2 ^ e - q < 2 ^ e / 4) :
    nearest negative q = .finite negative m e := by
  have step : (0 : ℚ) < 2 ^ e := by positivity
  have one_le : (1 : ℚ) ≤ m := by exact_mod_cast h.pos
  have fits : (m : ℚ) + 1 ≤ 2 * leastFull := by exact_mod_cast h.fits
  have pos : 0 < q := by nlinarith
  have high : q < 2 * leastFull * 2 ^ e := by nlinarith
  rw [nearest, if_neg pos.ne']
  by_cases low : leastFull * 2 ^ e ≤ q ∨ e = -1074
  · have mantissa : halfEven (q / 2 ^ e) = m := by
      refine halfEven_of_close (by positivity) ?_ ?_
      · rw [sub_lt_iff_lt_add, ← sub_lt_iff_lt_add', lt_div_iff₀ step]
        linarith
      · rw [sub_lt_iff_lt_add, div_lt_iff₀ step]
        linarith
    rw [binade_eq pos h.least low high, mantissa, carried_of_fits h.fits h.most]
  · -- just below a power of two, where the next mantissa is one digit too long
    obtain ⟨short, greater⟩ := not_or.mp low
    have short : q < leastFull * 2 ^ e := not_le.mp short
    have full : leastFull ≤ m := h.full.resolve_right greater
    have least : m = leastFull := by
      by_contra more
      have next : (leastFull : ℚ) + 1 ≤ m := by
        exact_mod_cast lt_of_le_of_ne full (Ne.symm more)
      nlinarith
    have close := lowest least (lt_of_le_of_ne h.least (Ne.symm greater))
    subst least
    have half : (2 : ℚ) ^ e = 2 ^ (e - 1) * 2 := by
      rw [← zpow_add_one₀ two_ne_zero, sub_add_cancel]
    have step' : (0 : ℚ) < 2 ^ (e - 1) := by positivity
    rw [half] at short close
    have mantissa : halfEven (q / 2 ^ (e - 1)) = 2 * leastFull := by
      refine halfEven_of_close (by positivity) ?_ ?_
      · rw [sub_lt_iff_lt_add, ← sub_lt_iff_lt_add', lt_div_iff₀ step']
        push_cast
        linarith
      · rw [sub_lt_iff_lt_add, div_lt_iff₀ step']
        push_cast
        linarith
    have low' : leastFull * 2 ^ (e - 1) ≤ q := by
      nlinarith
    have least := h.least
    have below := binade_eq (e := e - 1) pos (by omega) (.inl low') (by linarith)
    rw [below, mantissa, carried]
    simp [h.most]

end

def IsKept : Binary64 → Prop
  | .finite _ m e => m = 0 ∧ e = -1074 ∨ Kept m e
  | _ => True

theorem binade_bounds {q : ℚ} (pos : 0 < q) :
    q / 2 ^ binade q < 2 * leastFull ∧ (leastFull ≤ q / 2 ^ binade q ∨ binade q = -1074) := by
  have step : (0 : ℚ) < 2 ^ binade q := by positivity
  constructor
  · have high := Int.lt_zpow_succ_log_self (b := 2) (by decide) q
    have within : Int.log 2 q + 1 ≤ 53 + binade q := by
      rw [binade]
      omega
    have wide : ((2 : Nat) : ℚ) ^ (Int.log 2 q + 1) ≤ ((2 : Nat) : ℚ) ^ (53 + binade q) :=
      zpow_le_zpow_right₀ (by norm_num) within
    rw [div_lt_iff₀ step]
    refine (high.trans_le wide).trans_eq ?_
    rw [zpow_add₀ (by norm_num)]
    norm_num [leastFull]
  · rcases max_choice (Int.log 2 q - 52) (-1074) with own | least
    · left
      have low := Int.zpow_log_le_self (b := 2) (by decide) pos
      have log : Int.log 2 q = 52 + binade q := by
        rw [binade, own]
        omega
      rw [log, zpow_add₀ (by norm_num)] at low
      rw [le_div_iff₀ step, leastFull_eq]
      exact_mod_cast low
    · exact .inr least

theorem halfEven_bounds {q : ℚ} (nonneg : 0 ≤ q) {n : Nat} :
    (q < n → halfEven q ≤ n) ∧ (n ≤ q → n ≤ halfEven q) := by
  constructor
  · intro below
    have floor : ⌊q⌋₊ < n := (Nat.floor_lt nonneg).mpr below
    rw [halfEven]
    grind
  · intro above
    have floor : n ≤ ⌊q⌋₊ := Nat.le_floor above
    rw [halfEven]
    grind

theorem isKept_carried (negative : Bool) {m : Nat} {e : Int} (most : m ≤ 2 * leastFull)
    (least : -1074 ≤ e) (full : leastFull ≤ m ∨ e = -1074) : (carried negative m e).IsKept := by
  rw [carried]
  by_cases excess : m = 2 * leastFull
  · rw [if_pos excess]
    dsimp only
    split
    · trivial
    · rename_i fits
      exact .inr ⟨by decide, by decide, by omega, not_lt.mp fits, .inl le_rfl⟩
  · rw [if_neg excess]
    dsimp only
    split
    · trivial
    · rename_i fits
      by_cases zero : m = 0
      · refine .inl ⟨zero, full.resolve_left ?_⟩
        rw [zero]
        decide
      · exact .inr ⟨Nat.pos_of_ne_zero zero, lt_of_le_of_ne most excess, least, not_lt.mp fits,
          full⟩

theorem isKept_nearest (negative : Bool) {q : ℚ} (nonneg : 0 ≤ q) :
    (nearest negative q).IsKept := by
  rw [nearest]
  split
  · exact .inl ⟨rfl, rfl⟩
  · rename_i ne
    obtain ⟨short, full⟩ := binade_bounds (lt_of_le_of_ne nonneg (Ne.symm ne))
    have mantissa : (0 : ℚ) ≤ q / 2 ^ binade q := by positivity
    refine isKept_carried negative ((halfEven_bounds mantissa).1 ?_) (le_max_right _ _)
      (full.imp_left (halfEven_bounds mantissa).2)
    exact_mod_cast short

theorem length_toString (n : Nat) : (toString n).length = (Nat.toDigits 10 n).length := by
  rw [← String.length_toList]
  exact congrArg List.length Nat.toList_repr

theorem pow_le_of_length {n k : Nat} (pos : 0 < n) (len : (toString n).length = k) :
    (10 : ℚ) ^ ((k : Int) - 1) ≤ n ∧ (n : ℚ) < 10 ^ (k : Int) := by
  rw [length_toString] at len
  have some : 0 < k := len ▸ List.length_pos_of_ne_nil Nat.toDigits_ne_nil
  have high : n < Nat.pow 10 k := (Nat.length_toDigits_le_iff (by decide) some).mp len.le
  have low : Nat.pow 10 (k - 1) ≤ n := by
    rcases Nat.eq_or_lt_of_le some with one | more
    · rw [← one]
      exact pos
    · by_contra short
      have := (Nat.length_toDigits_le_iff (b := 10) (by decide) (Nat.sub_pos_of_lt more)).mpr
        (not_le.mp short)
      omega
  constructor
  · rw [← Nat.cast_one, ← Nat.cast_sub some, zpow_natCast]
    exact_mod_cast low
  · rw [zpow_natCast]
    exact_mod_cast high

theorem two_pow_le_ten_pow : (2 : ℚ) ^ (1200 : Int) ≤ 10 ^ (400 : Int) := by
  have eight : (2 : ℚ) ^ (1200 : Int) = (2 ^ 3) ^ (400 : Int) := by
    rw [← zpow_natCast, ← zpow_mul]
    rfl
  rw [eight]
  exact zpow_le_zpow_left₀ (by decide) (by norm_num) (by norm_num)

theorem nearest_of_huge (negative : Bool) {q : ℚ} (huge : 10 ^ (400 : Int) ≤ q) :
    nearest negative q = .infinite negative := by
  have pos : 0 < q := lt_of_lt_of_le (by positivity) huge
  have large : ((2 : Nat) : ℚ) ^ (1200 : Int) ≤ q := two_pow_le_ten_pow.trans huge
  have log := (Int.zpow_le_iff_le_log (by decide) pos).mp large
  have exponent : 971 < binade q := by
    rw [binade]
    omega
  rw [nearest, if_neg pos.ne', carried]
  split
  rename_i m e split
  have grown : binade q ≤ e := by
    split at split <;> simp at split <;> omega
  exact if_pos (lt_of_lt_of_le exponent grown)

theorem nearest_of_tiny (negative : Bool) {q : ℚ} (pos : 0 < q) (tiny : q < 10 ^ (-400 : Int)) :
    nearest negative q = .finite negative 0 (-1074) := by
  have small : q < 2 ^ (-1074 : Int) / 2 := by
    have inverse : (10 : ℚ) ^ (-400 : Int) ≤ 2 ^ (-1200 : Int) := by
      rw [zpow_neg, zpow_neg]
      exact inv_anti₀ (by positivity) two_pow_le_ten_pow
    have half : (2 : ℚ) ^ (-1074 : Int) / 2 = 2 ^ (-1075 : Int) := by
      rw [show (-1075 : Int) = -1074 - 1 from rfl, zpow_sub_one₀ (two_ne_zero : (2 : ℚ) ≠ 0),
        div_eq_mul_inv]
    rw [half]
    refine (tiny.trans_le inverse).trans_le ?_
    exact zpow_le_zpow_right₀ (by norm_num) (by decide)
  have step : (0 : ℚ) < 2 ^ (-1074 : Int) := by positivity
  have high : q < 2 * leastFull * 2 ^ (-1074 : Int) := by
    have : (1 : ℚ) ≤ leastFull := by norm_num [leastFull]
    nlinarith
  have mantissa : halfEven (q / 2 ^ (-1074 : Int)) = 0 := by
    refine halfEven_of_close (by positivity) ?_ ?_
    · have nonneg : 0 ≤ q / 2 ^ (-1074 : Int) := by positivity
      rw [Nat.cast_zero]
      linarith
    · rw [Nat.cast_zero, sub_zero, div_lt_iff₀ step]
      linarith
  rw [nearest, if_neg pos.ne', binade_eq pos le_rfl (.inr rfl) high, mantissa]
  rfl

/-- Reading a decimal is rounding its exact value: the shortcuts for huge and for tiny ones make no
difference. -/
theorem ofDecimal_eq (negative : Bool) (digits : Nat) (exponent : Int) :
    ofDecimal negative digits exponent = nearest negative (digits * 10 ^ exponent) := by
  rw [ofDecimal]
  split
  · rename_i zero
    simp [zero, nearest]
  rename_i ne
  have pos : (0 : ℚ) < digits * 10 ^ exponent := by positivity
  obtain ⟨low, high⟩ := pow_le_of_length (Nat.pos_of_ne_zero ne) rfl
  have step : (0 : ℚ) < 10 ^ exponent := by positivity
  dsimp only
  split
  · rename_i huge
    refine (nearest_of_huge negative (le_trans ?_ (mul_le_mul_of_nonneg_right low step.le))).symm
    rw [← zpow_add₀ (by norm_num)]
    exact zpow_le_zpow_right₀ (by norm_num) (by omega)
  split
  · rename_i tiny
    refine (nearest_of_tiny negative pos ((mul_lt_mul_of_pos_right high step).trans_le ?_)).symm
    rw [← zpow_add₀ (by norm_num)]
    exact zpow_le_zpow_right₀ (by norm_num) (by omega)
  split
  · rename_i fraction
    obtain ⟨k, rfl⟩ := Int.exists_eq_neg_ofNat (Int.le_of_lt fraction)
    have some : 0 < Nat.pow 10 (-(k : Int)).natAbs := Nat.pow_pos (by decide)
    rw [round_eq _ _ some, Int.natAbs_neg, Int.natAbs_natCast, zpow_neg,
      zpow_natCast, ← div_eq_mul_inv]
    congr 2
    exact Nat.cast_pow 10 k
  · rename_i whole
    obtain ⟨k, rfl⟩ := Int.eq_ofNat_of_zero_le (Int.not_lt.mp whole)
    rw [round_eq _ _ Nat.one_pos, Int.natAbs_natCast, cast_mul_pow, Nat.cast_ofNat, zpow_natCast,
      Nat.cast_one, div_one]

end Binary64
end NodeFleet
