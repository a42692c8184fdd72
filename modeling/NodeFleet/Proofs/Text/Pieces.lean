import NodeFleet.Text.Utf8
import Mathlib.Data.List.Basic
/-!
Bytes that are read in pieces. What is read from pieces one by one is what is read from the whole
exactly if each piece ends where a character of the whole, or a broken piece in place of one, ends;
a cut anywhere else gives more characters.
-/

set_option autoImplicit false
namespace NodeFleet
namespace Utf8

variable {lead b : UInt8} {rest first second : Bytes}

theorem isContinuation_of_isSecondByte (h : isSecondByte lead b = true) :
    isContinuation b = true := by
  have within : 0x80 ≤ (secondByteRange lead).1 ∧ (secondByteRange lead).2 ≤ 0xbf := by
    unfold secondByteRange
    split_ifs <;> decide
  simp only [isSecondByte, isContinuation, Bool.and_eq_true, decide_eq_true_eq] at h ⊢
  exact ⟨UInt8.le_trans within.1 h.1, UInt8.le_trans h.2 within.2⟩

def followerTests (lead : UInt8) : List (UInt8 → Bool) :=
  match followingBytes lead with
  | none | some 0 => []
  | some (n + 1) => isSecondByte lead :: List.replicate n isContinuation

def fitting : List (UInt8 → Bool) → Bytes → Nat
  | [], _ => 0
  | _, [] => 0
  | test :: tests, b :: rest => if test b then fitting tests rest + 1 else 0

def leadOffset : Nat → Nat
  | 0 => 0
  | 1 => 0xc0
  | 2 => 0xe0
  | _ => 0xf0

def charOf (lead : UInt8) (followers : Bytes) : Char :=
  Char.ofNat (followers.foldl (fun n b => n * 64 + (b.toNat - 0x80))
    (lead.toNat - leadOffset followers.length))

theorem followingBytes_le {n : Nat} (h : followingBytes lead = some n) : n ≤ 3 := by
  unfold followingBytes at h
  split_ifs at h <;> cases h <;> omega

theorem leadingChar_eq (lead : UInt8) (rest : Bytes) :
    let n := fitting (followerTests lead) rest
    leadingChar lead rest =
      (if followingBytes lead = some n then some (charOf lead (rest.take n)) else none, n) := by
  intro n
  -- one case for each number of bytes behind, by how many of them there are and which pass
  cases count : followingBytes lead with
  | none => simp [leadingChar, n, followerTests, fitting, count]
  | some k =>
    have bound := followingBytes_le count
    obtain rfl | rfl | rfl | rfl : k = 0 ∨ k = 1 ∨ k = 2 ∨ k = 3 := by omega
    · simp [leadingChar, n, followerTests, fitting, count, charOf, leadOffset]
    · rcases rest with _ | ⟨x, r⟩
      · simp [leadingChar, n, followerTests, fitting, count]
      · by_cases second : isSecondByte lead x = true <;>
          simp [leadingChar, n, followerTests, fitting, count, second, charOf, leadOffset]
    · rcases rest with _ | ⟨x, _ | ⟨y, r⟩⟩
      · simp [leadingChar, n, followerTests, fitting, count]
      · by_cases second : isSecondByte lead x = true <;>
          simp [leadingChar, n, followerTests, fitting, count, second]
      · by_cases second : isSecondByte lead x = true <;>
          by_cases third : isContinuation y = true <;>
            simp [leadingChar, n, followerTests, fitting, count, second, third, charOf, leadOffset]
    · rcases rest with _ | ⟨x, _ | ⟨y, _ | ⟨z, r⟩⟩⟩
      · simp [leadingChar, n, followerTests, fitting, count]
      · by_cases second : isSecondByte lead x = true <;>
          simp [leadingChar, n, followerTests, fitting, count, second]
      · by_cases second : isSecondByte lead x = true <;>
          by_cases third : isContinuation y = true <;>
            simp [leadingChar, n, followerTests, fitting, count, second, third]
      · by_cases second : isSecondByte lead x = true <;>
          by_cases third : isContinuation y = true <;>
            by_cases fourth : isContinuation z = true <;>
              simp [leadingChar, n, followerTests, fitting, count, second, third, fourth, charOf,
                leadOffset]

theorem fitting_le (tests : List (UInt8 → Bool)) (rest : Bytes) :
    fitting tests rest ≤ rest.length := by
  fun_induction fitting tests rest with
  | case1 => exact Nat.zero_le _
  | case2 => exact Nat.zero_le _
  | case3 test tests b rest passes ih => exact Nat.succ_le_succ ih
  | case4 => exact Nat.zero_le _

theorem forall_take_fitting {P : UInt8 → Prop} {tests : List (UInt8 → Bool)} (rest : Bytes)
    (h : ∀ test ∈ tests, ∀ b, test b = true → P b) :
    ∀ b ∈ rest.take (fitting tests rest), P b := by
  fun_induction fitting tests rest with
  | case1 => simp
  | case2 => simp
  | case3 test tests b rest passes ih =>
    obtain ⟨own, others⟩ := List.forall_mem_cons.mp h
    rw [List.take_succ_cons]
    exact List.forall_mem_cons.mpr ⟨own b passes, ih others⟩
  | case4 => simp

theorem fitting_append_of_le {tests : List (UInt8 → Bool)} {first second : Bytes}
    (h : fitting tests (first ++ second) ≤ first.length) :
    fitting tests (first ++ second) = fitting tests first := by
  induction first generalizing tests with
  | nil =>
    cases tests with
    | nil => rfl
    | cons test tests => exact Nat.le_zero.mp h
  | cons b first ih =>
    cases tests with
    | nil => rfl
    | cons test tests =>
      rw [List.cons_append, fitting, fitting] at *
      split_ifs at h ⊢
      · rw [ih (Nat.le_of_succ_le_succ h)]
      · rfl

theorem fitting_append_of_lt {tests : List (UInt8 → Bool)} {first second : Bytes}
    (h : first.length < fitting tests (first ++ second)) :
    fitting tests first = first.length ∧ first.length < tests.length := by
  induction first generalizing tests with
  | nil =>
    cases tests with
    | nil => exact absurd h (Nat.lt_irrefl 0)
    | cons test tests => exact ⟨rfl, Nat.succ_pos _⟩
  | cons b first ih =>
    cases tests with
    | nil => exact absurd h (Nat.not_lt_zero _)
    | cons test tests =>
      rw [List.cons_append, fitting] at h
      rw [fitting]
      split_ifs at h ⊢
      · obtain ⟨all, more⟩ := ih (Nat.lt_of_succ_lt_succ h)
        exact ⟨congrArg (· + 1) all, Nat.succ_lt_succ more⟩
      · exact absurd h (Nat.not_lt_zero _)

theorem length_followerTests {n : Nat} (h : followingBytes lead = some n) :
    (followerTests lead).length = n := by
  cases n <;> simp [followerTests, h]

theorem isContinuation_of_mem_followerTests :
    ∀ test ∈ followerTests lead, ∀ b, test b = true → isContinuation b = true := by
  unfold followerTests
  split
  · simp
  · simp
  · intro test mem b passes
    rcases List.mem_cons.mp mem with rfl | mem
    · exact isContinuation_of_isSecondByte passes
    · rwa [List.eq_of_mem_replicate mem] at passes

def behind (lead : UInt8) (rest : Bytes) : Nat := (leadingChar lead rest).2

theorem behind_eq (lead : UInt8) (rest : Bytes) :
    behind lead rest = fitting (followerTests lead) rest := by
  rw [behind, leadingChar_eq]

theorem behind_le (lead : UInt8) (rest : Bytes) : behind lead rest ≤ rest.length := by
  rw [behind_eq]
  exact fitting_le _ rest

theorem isContinuation_of_mem_take_behind (lead : UInt8) (rest : Bytes) :
    ∀ b ∈ rest.take (behind lead rest), isContinuation b = true := by
  rw [behind_eq]
  exact forall_take_fitting rest isContinuation_of_mem_followerTests

theorem leadingChar_append (h : behind lead (first ++ second) ≤ first.length) :
    leadingChar lead (first ++ second) = leadingChar lead first := by
  rw [behind_eq] at h
  have same := fitting_append_of_le h
  rw [leadingChar_eq, leadingChar_eq, ← same, List.take_append_of_le_length h]

theorem leadingChar_of_cut (h : first.length < behind lead (first ++ second)) :
    leadingChar lead first = (none, first.length) := by
  rw [behind_eq] at h
  obtain ⟨all, more⟩ := fitting_append_of_lt h
  have short : followingBytes lead ≠ some first.length := by
    intro count
    rw [length_followerTests count] at more
    exact Nat.lt_irrefl _ more
  rw [leadingChar_eq, all, if_neg short]

theorem leadingChar_of_isContinuation (h : isContinuation b = true) (rest : Bytes) :
    leadingChar b rest = (none, 0) := by
  have none : followingBytes b = none := by
    simp only [isContinuation, Bool.and_eq_true, decide_eq_true_eq] at h
    have ascii : ¬ b < 0x80 := UInt8.not_lt.mpr h.1
    have low : b < 0xc2 := UInt8.lt_of_le_of_lt h.2 (by decide)
    rw [followingBytes, if_neg ascii, if_pos low]
  have tests : followerTests b = [] := by rw [followerTests, none]
  rw [leadingChar_eq, tests, fitting, none]
  rfl

theorem readUtf8_skip (n : Nat) (bytes : Bytes) : readUtf8 n bytes = readUtf8 0 (bytes.drop n) := by
  induction n generalizing bytes with
  | zero => rfl
  | succ n ih =>
    cases bytes with
    | nil => rfl
    | cons b rest => exact ih rest

theorem readUtf8_cons (lead : UInt8) (rest : Bytes) : readUtf8 0 (lead :: rest) =
    (leadingChar lead rest).1 :: readUtf8 0 (rest.drop (behind lead rest)) := by
  rw [readUtf8, readUtf8_skip]
  rfl

theorem length_readUtf8_continuations {bytes : Bytes} (h : ∀ b ∈ bytes, isContinuation b = true)
    (rest : Bytes) :
    (readUtf8 0 (bytes ++ rest)).length = bytes.length + (readUtf8 0 rest).length := by
  induction bytes with
  | nil => exact (Nat.zero_add _).symm
  | cons b bytes ih =>
    obtain ⟨first, others⟩ := List.forall_mem_cons.mp h
    have alone := leadingChar_of_isContinuation first (bytes ++ rest)
    rw [List.cons_append, readUtf8_cons, behind, alone, List.drop_zero, List.length_cons,
      List.length_cons, ih others]
    omega

/-- Reading has come to the end of a character or of a broken piece after so many bytes. -/
inductive Boundary : Bytes → Nat → Prop
  | start (bytes : Bytes) : Boundary bytes 0
  | next (lead : UInt8) (rest : Bytes) (n : Nat)
      (further : Boundary (rest.drop (behind lead rest)) n) :
      Boundary (lead :: rest) (behind lead rest + n + 1)

theorem boundary_cons_iff {n : Nat} : Boundary (lead :: rest) (n + 1) ↔
    behind lead rest ≤ n ∧ Boundary (rest.drop (behind lead rest)) (n - behind lead rest) := by
  constructor
  · intro h
    generalize at_ : n + 1 = m at h
    cases h with
    | start => omega
    | next _ _ k further =>
      obtain rfl : n = behind lead rest + k := by omega
      rw [Nat.add_sub_cancel_left]
      exact ⟨Nat.le_add_right _ _, further⟩
  · rintro ⟨within, further⟩
    have h := Boundary.next lead rest _ further
    rwa [Nat.add_sub_cancel' within] at h

/-- Where one character or broken piece ends with the first part, the parts are read one after the
other. -/
theorem readUtf8_append (first second : Bytes) (h : Boundary (first ++ second) first.length) :
    readUtf8 0 (first ++ second) = readUtf8 0 first ++ readUtf8 0 second := by
  match first, h with
  | [], _ => rfl
  | lead :: rest, h =>
    rw [List.cons_append, List.length_cons, boundary_cons_iff] at h
    obtain ⟨within, further⟩ := h
    have same := leadingChar_append within
    have shorter : behind lead (rest ++ second) = behind lead rest := congrArg (·.2) same
    rw [shorter] at within further
    rw [List.drop_append_of_le_length within, ← List.length_drop] at further
    rw [List.cons_append, readUtf8_cons, readUtf8_cons, shorter, same,
      List.drop_append_of_le_length within, readUtf8_append _ second further]
    rfl
termination_by first.length
decreasing_by
  simp only [List.length_drop, List.length_cons]
  omega

theorem length_readUtf8_of_cut (first second : Bytes)
    (h : ¬ Boundary (first ++ second) first.length) :
    (readUtf8 0 (first ++ second)).length <
      (readUtf8 0 first).length + (readUtf8 0 second).length := by
  match first, h with
  | [], h => exact absurd (.start _) h
  | lead :: rest, h =>
    rw [List.cons_append, List.length_cons, boundary_cons_iff] at h
    rw [List.cons_append, readUtf8_cons, List.length_cons]
    by_cases within : behind lead (rest ++ second) ≤ rest.length
    · have same := leadingChar_append within
      have shorter : behind lead (rest ++ second) = behind lead rest := congrArg (·.2) same
      rw [shorter] at within h
      rw [List.drop_append_of_le_length within, ← List.length_drop] at h
      have later := length_readUtf8_of_cut _ second fun further => h ⟨within, further⟩
      rw [shorter, List.drop_append_of_le_length within, readUtf8_cons lead rest, List.length_cons]
      omega
    · have beyond := Nat.lt_of_not_le within
      have broken := leadingChar_of_cut beyond
      have all : behind lead rest = rest.length := congrArg (·.2) broken
      have own : (readUtf8 0 (lead :: rest)).length = 1 := by
        rw [readUtf8_cons, all, List.drop_length]
        rfl
      have follow := isContinuation_of_mem_take_behind lead (rest ++ second)
      have inside := behind_le lead (rest ++ second)
      -- the second part begins with the bytes that are missing from the first
      generalize behind lead (rest ++ second) = n at beyond follow inside ⊢
      rw [List.take_append, List.forall_mem_append] at follow
      have split := length_readUtf8_continuations follow.2 (second.drop (n - rest.length))
      rw [List.take_append_drop, List.length_take] at split
      rw [List.length_append] at inside
      rw [List.drop_append, List.drop_of_length_le (Nat.le_of_lt beyond), List.nil_append, own,
        split]
      omega
termination_by first.length
decreasing_by
  simp only [List.length_drop, List.length_cons]
  omega

theorem boundary_append_iff (first second : Bytes) (n : Nat)
    (h : Boundary (first ++ second) first.length) :
    Boundary (first ++ second) (first.length + n) ↔ Boundary second n := by
  match first, h with
  | [], _ => rw [List.nil_append, List.length_nil, Nat.zero_add]
  | lead :: rest, h =>
    rw [List.cons_append, List.length_cons, boundary_cons_iff] at h
    obtain ⟨within, further⟩ := h
    have shorter : behind lead (rest ++ second) = behind lead rest :=
      congrArg (·.2) (leadingChar_append within)
    rw [shorter] at within further
    have left : (rest ++ second).drop (behind lead rest) =
        rest.drop (behind lead rest) ++ second := List.drop_append_of_le_length within
    rw [left, ← List.length_drop] at further
    have later := boundary_append_iff _ second n further
    have count : rest.length + n - behind lead rest =
        (rest.drop (behind lead rest)).length + n := by
      rw [List.length_drop]
      omega
    rw [List.cons_append, List.length_cons, Nat.succ_add, boundary_cons_iff, shorter, left, count,
      later]
    exact and_iff_right (Nat.le_trans within (Nat.le_add_right _ _))
termination_by first.length
decreasing_by
  simp only [List.length_drop, List.length_cons]
  omega

/-- Each piece ends where a character or a broken piece of the whole ends. -/
def Unbroken (pieces : List Bytes) : Prop :=
  ∀ before after, pieces = before ++ after → Boundary pieces.flatten before.flatten.length

theorem unbroken_cons_iff {piece : Bytes} {pieces : List Bytes} : Unbroken (piece :: pieces) ↔
    Boundary (piece ++ pieces.flatten) piece.length ∧ Unbroken pieces := by
  have whole : (piece :: pieces).flatten = piece ++ pieces.flatten := List.flatten_cons
  constructor
  · intro h
    have first : Boundary (piece ++ pieces.flatten) piece.length := by
      simpa using h [piece] pieces rfl
    refine ⟨first, fun before after split => ?_⟩
    have later := h (piece :: before) after (by rw [split, List.cons_append])
    rw [whole, List.flatten_cons, List.length_append] at later
    exact (boundary_append_iff _ _ _ first).mp later
  · rintro ⟨first, others⟩ before after split
    rw [whole]
    cases before with
    | nil => exact .start _
    | cons p before =>
      obtain ⟨rfl, rest⟩ := List.cons.inj split
      rw [List.flatten_cons, List.length_append]
      exact (boundary_append_iff _ _ _ first).mpr (others before after rest)

theorem length_decodeLossy (bytes : Bytes) :
    (decodeLossy bytes).length = (readUtf8 0 bytes).length := by
  rw [decodeLossy, String.length_ofList, List.length_map]

theorem decodeLossy_append {first second : Bytes} (h : Boundary (first ++ second) first.length) :
    decodeLossy (first ++ second) = decodeLossy first ++ decodeLossy second := by
  rw [decodeLossy, readUtf8_append first second h, List.map_append, String.ofList_append]
  rfl

theorem length_decodeLossy_le (pieces : List Bytes) : (decodeLossy pieces.flatten).length ≤
    (String.join (pieces.map decodeLossy)).length := by
  induction pieces with
  | nil => exact Nat.zero_le _
  | cons piece pieces ih =>
    rw [List.flatten_cons, List.map_cons, String.join_cons, String.length_append]
    by_cases h : Boundary (piece ++ pieces.flatten) piece.length
    · rw [decodeLossy_append h, String.length_append]
      omega
    · have less := length_readUtf8_of_cut _ _ h
      rw [length_decodeLossy] at ih ⊢
      rw [length_decodeLossy]
      omega

/-- Decoding piece by piece is decoding the whole exactly if no character is cut. -/
theorem join_decodeLossy_eq_iff (pieces : List Bytes) :
    String.join (pieces.map decodeLossy) = decodeLossy pieces.flatten ↔ Unbroken pieces := by
  induction pieces with
  | nil =>
    refine iff_of_true rfl fun before after split => ?_
    obtain ⟨rfl, -⟩ := List.append_eq_nil_iff.mp split.symm
    exact .start _
  | cons piece pieces ih =>
    rw [List.flatten_cons, List.map_cons, String.join_cons, unbroken_cons_iff]
    have least := length_decodeLossy_le pieces
    constructor
    · intro same
      have first : Boundary (piece ++ pieces.flatten) piece.length := by
        by_contra cut
        have less := length_readUtf8_of_cut _ _ cut
        have lengths := congrArg String.length same
        rw [String.length_append, length_decodeLossy, length_decodeLossy] at lengths
        rw [length_decodeLossy] at least
        omega
      rw [decodeLossy_append first] at same
      exact ⟨first, ih.mp ((String.append_right_inj _).mp same)⟩
    · rintro ⟨first, others⟩
      rw [decodeLossy_append first, ih.mpr others]

end Utf8
end NodeFleet
