import Mathlib.Data.List.Basic
import NodeFleet.Table
import NodeFleet.Text.Utf8

set_option autoImplicit false
namespace NodeFleet
namespace Utf8

theorem toList_loop (bytes : ByteArray) (i : Nat) (done : Bytes) :
    ByteArray.toList.loop bytes i done = done.reverse ++ bytes.data.toList.drop i := by
  fun_induction ByteArray.toList.loop bytes i done with
  | case1 i done more ih =>
    have inside : i < bytes.data.toList.length := more
    have next : bytes.get! i = bytes.data.toList[i] := by simp [ByteArray.get!, more]
    rw [ih, List.drop_eq_getElem_cons inside, List.reverse_cons, List.append_assoc, next]
    rfl
  | case2 i done ended =>
    have beyond : bytes.data.toList.length ≤ i := Nat.le_of_not_lt ended
    rw [List.drop_eq_nil_of_le beyond, List.append_nil]

theorem encodeText_eq (s : String) : encodeText s = s.toList.flatMap String.utf8EncodeChar := by
  rw [encodeText, String.toUTF8_eq_toByteArray, ← String.utf8Encode_toList, List.utf8Encode,
    ByteArray.toList, toList_loop]
  exact List.toList_data_toByteArray

def Precedes : Bytes → Bytes → Prop
  | b :: first, c :: second => b < c ∨ b = c ∧ Precedes first second
  | _, _ => False

theorem lt_of_precedes {first second : Bytes} (h : Precedes first second) (behind later : Bytes) :
    first ++ behind < second ++ later := by
  fun_induction Precedes first second with
  | case1 b first c second ih =>
    rw [List.cons_append, List.cons_append, List.cons_lt_cons_iff]
    exact h.imp_right fun ⟨same, further⟩ => ⟨same, ih further⟩
  | case2 => exact h.elim

theorem exists_digits (n : Nat) : ∃ a b c d, n = ((a * 64 + b) * 64 + c) * 64 + d ∧
    n / 262144 = a ∧ n / 4096 % 64 = b ∧ n / 64 % 64 = c ∧ n % 64 = d :=
  ⟨_, _, _, _, by omega, rfl, rfl, rfl, rfl⟩

theorem precedes_of_four {m n : Nat} (less : m < n) (bound : n < 0x110000) :
    Precedes
      [.ofNat (m / 262144 % 8 + 0xf0), .ofNat (m / 4096 % 64 + 0x80), .ofNat (m / 64 % 64 + 0x80),
        .ofNat (m % 64 + 0x80)]
      [.ofNat (n / 262144 % 8 + 0xf0), .ofNat (n / 4096 % 64 + 0x80), .ofNat (n / 64 % 64 + 0x80),
        .ofNat (n % 64 + 0x80)] := by
  obtain ⟨a, b, c, d, whole, ha, hb, hc, hd⟩ := exists_digits m
  obtain ⟨a', b', c', d', whole', ha', hb', hc', hd'⟩ := exists_digits n
  have small : b < 64 ∧ c < 64 ∧ d < 64 ∧ b' < 64 ∧ c' < 64 ∧ d' < 64 := by omega
  have first : a < 8 ∧ a' < 8 := by omega
  rw [ha, hb, hc, hd, ha', hb', hc', hd']
  clear ha hb hc hd ha' hb' hc' hd'
  have top : a % 8 = a ∧ a' % 8 = a' := by omega
  rw [top.1, top.2]
  simp only [Precedes, ← UInt8.toNat_inj, UInt8.lt_iff_toNat_lt, UInt8.toNat_ofNat']
  omega

theorem precedes_of_lt {c d : Char} (h : c < d) :
    Precedes (String.utf8EncodeChar c) (String.utf8EncodeChar d) := by
  have less : c.val.toNat < d.val.toNat := h
  have bound : d.val.toNat < 0x110000 := by
    rcases d.valid with low | high
    · exact Nat.lt_trans low (by decide)
    · exact high.2
  by_cases four : 0xffff < c.val.toNat
  · have above : 0xffff < d.val.toNat := Nat.lt_trans four less
    have written (e : Char) (large : 0xffff < e.val.toNat) : String.utf8EncodeChar e =
        [.ofNat (e.val.toNat / 262144 % 8 + 0xf0), .ofNat (e.val.toNat / 4096 % 64 + 0x80),
          .ofNat (e.val.toNat / 64 % 64 + 0x80), .ofNat (e.val.toNat % 64 + 0x80)] := by
      have one : ¬ e.val.toNat ≤ 127 := by omega
      have two : ¬ e.val.toNat ≤ 2047 := by omega
      have three : ¬ e.val.toNat ≤ 65535 := by omega
      simp only [String.utf8EncodeChar, if_neg one, if_neg two, if_neg three]
    rw [written c four, written d above]
    exact precedes_of_four less bound
  · simp only [String.utf8EncodeChar]
    split_ifs <;>
      simp only [Precedes, ← UInt8.toNat_inj, UInt8.lt_iff_toNat_lt, UInt8.toNat_ofNat'] <;> omega

theorem flatMap_encode_lt {first second : List Char} (h : first < second) :
    first.flatMap String.utf8EncodeChar < second.flatMap String.utf8EncodeChar := by
  induction first generalizing second with
  | nil =>
    cases second with
    | nil => exact absurd h (List.lt_irrefl _)
    | cons d second =>
      rw [List.flatMap_nil, List.flatMap_cons]
      have some : String.utf8EncodeChar d ≠ [] := String.utf8EncodeChar_ne_nil
      obtain ⟨b, bytes, written⟩ := List.exists_cons_of_ne_nil some
      rw [written]
      exact List.nil_lt_cons _ _
  | cons c first ih =>
    cases second with
    | nil => exact absurd h (List.not_lt_nil _)
    | cons d second =>
      rw [List.flatMap_cons, List.flatMap_cons]
      rcases List.cons_lt_cons_iff.mp h with before | ⟨rfl, further⟩
      · exact lt_of_precedes (precedes_of_lt before) _ _
      · exact List.append_left_lt (ih further)

/-- Texts are in the order of their bytes. -/
theorem lt_iff_encodeText_lt {s t : String} : s < t ↔ encodeText s < encodeText t := by
  have forth {s t : String} (h : s < t) : encodeText s < encodeText t := by
    rw [encodeText_eq, encodeText_eq]
    exact flatMap_encode_lt (String.lt_iff.mp h)
  refine ⟨forth, fun h => ?_⟩
  have ne : s ≠ t := by
    rintro rfl
    exact List.lt_irrefl _ h
  rcases Table.lt_or_lt_of_ne ne with before | after
  · exact before
  · exact absurd h (List.lt_asymm (forth after))

end Utf8
end NodeFleet
