import NodeFleet.Daemon.Response
import NodeFleet.Proofs.Text.ByteOrder
import NodeFleet.Proofs.Text.Pieces

set_option autoImplicit false
namespace NodeFleet
namespace Utf8

theorem fitting_of_forall₂ {tests : List (UInt8 → Bool)} {bytes : Bytes}
    (h : List.Forall₂ (fun test b => test b = true) tests bytes) (rest : Bytes) :
    fitting tests (bytes ++ rest) = bytes.length := by
  induction h with
  | nil => rfl
  | cons passes _ ih => rw [List.cons_append, fitting, if_pos passes, ih, List.length_cons]

theorem readUtf8_of_fitting {lead : UInt8} {n : Nat} (followers rest : Bytes)
    (count : followingBytes lead = some followers.length)
    (fits : List.Forall₂ (fun test b => test b = true) (followerTests lead) followers)
    (value : followers.foldl (fun n b => n * 64 + (b.toNat - 0x80))
      (lead.toNat - leadOffset followers.length) = n) :
    readUtf8 0 (lead :: followers ++ rest) = some (Char.ofNat n) :: readUtf8 0 rest := by
  have first := leadingChar_eq lead (followers ++ rest)
  dsimp only at first
  rw [fitting_of_forall₂ fits, if_pos count, List.take_left, charOf, value] at first
  rw [List.cons_append, readUtf8_cons, behind, first, List.drop_left]

theorem followingBytes_ofNat {n : Nat} (h : n < 0x100) : followingBytes (.ofNat n) =
    if n < 0x80 then some 0 else if n < 0xc2 then none else if n < 0xe0 then some 1
    else if n < 0xf0 then some 2 else if n < 0xf5 then some 3 else none := by
  simp only [followingBytes, UInt8.lt_iff_toNat_lt, UInt8.toNat_ofNat', UInt8.reduceToNat,
    Nat.mod_eq_of_lt h]

theorem isContinuation_ofNat {d : Nat} (h : d < 64) :
    isContinuation (.ofNat (d + 0x80)) = true := by
  simp only [isContinuation, Bool.and_eq_true, decide_eq_true_eq, UInt8.le_iff_toNat_le,
    UInt8.toNat_ofNat', UInt8.reduceToNat]
  omega

theorem isSecondByte_ofNat {n d : Nat} (lead : n < 0x100) (h : d < 64)
    (long : (n = 0xe0 → 32 ≤ d) ∧ (n = 0xf0 → 16 ≤ d))
    (valid : (n = 0xed → d < 32) ∧ (n = 0xf4 → d < 16)) :
    isSecondByte (.ofNat n) (.ofNat (d + 0x80)) = true := by
  simp only [isSecondByte, secondByteRange, ← UInt8.toNat_inj, UInt8.le_iff_toNat_le,
    UInt8.toNat_ofNat', UInt8.reduceToNat, Bool.and_eq_true, decide_eq_true_eq,
    Nat.mod_eq_of_lt lead]
  split_ifs <;> simp only [UInt8.reduceToNat] <;> omega

theorem readUtf8_encode (c : Char) (rest : Bytes) :
    readUtf8 0 (String.utf8EncodeChar c ++ rest) = some c :: readUtf8 0 rest := by
  have same : Char.ofNat c.val.toNat = c := Char.ofNat_toNat c
  have bounds : c.val.toNat < 0xd800 ∨ 0xdfff < c.val.toNat ∧ c.val.toNat < 0x110000 := c.valid
  rw [String.utf8EncodeChar]
  generalize c.val.toNat = n at same bounds
  rw [← same]
  have third : isContinuation (.ofNat (n / 64 % 64 + 0x80)) = true :=
    isContinuation_ofNat (by omega)
  have fourth : isContinuation (.ofNat (n % 64 + 0x80)) = true := isContinuation_ofNat (by omega)
  -- by the number of bytes: which follow, and the value they give with the lead byte
  split_ifs with one two three
  · have count : followingBytes (.ofNat n) = some 0 := by
      rw [followingBytes_ofNat (by omega), if_pos (by omega)]
    refine readUtf8_of_fitting [] rest count ?_ ?_
    · rw [followerTests, count]
      exact .nil
    · simp only [List.foldl, leadOffset, List.length_nil, UInt8.toNat_ofNat']
      omega
  · have count : followingBytes (.ofNat (n / 64 % 32 + 0xc0)) = some 1 := by
      rw [followingBytes_ofNat (by omega), if_neg (by omega), if_neg (by omega), if_pos (by omega)]
    have second : isSecondByte (.ofNat (n / 64 % 32 + 0xc0)) (.ofNat (n % 64 + 0x80)) = true :=
      isSecondByte_ofNat (by omega) (by omega) (by omega) (by omega)
    refine readUtf8_of_fitting [_] rest count ?_ ?_
    · rw [followerTests, count]
      exact .cons second .nil
    · simp only [List.foldl, leadOffset, List.length_cons, List.length_nil, UInt8.toNat_ofNat']
      omega
  · have count : followingBytes (.ofNat (n / 4096 % 16 + 0xe0)) = some 2 := by
      rw [followingBytes_ofNat (by omega), if_neg (by omega), if_neg (by omega), if_neg (by omega),
        if_pos (by omega)]
    have second : isSecondByte (.ofNat (n / 4096 % 16 + 0xe0)) (.ofNat (n / 64 % 64 + 0x80)) =
        true := isSecondByte_ofNat (by omega) (by omega) (by omega) (by omega)
    refine readUtf8_of_fitting [_, _] rest count ?_ ?_
    · rw [followerTests, count]
      exact .cons second (.cons fourth .nil)
    · simp only [List.foldl, leadOffset, List.length_cons, List.length_nil, UInt8.toNat_ofNat']
      omega
  · have count : followingBytes (.ofNat (n / 262144 % 8 + 0xf0)) = some 3 := by
      rw [followingBytes_ofNat (by omega), if_neg (by omega), if_neg (by omega), if_neg (by omega),
        if_neg (by omega), if_pos (by omega)]
    have second : isSecondByte (.ofNat (n / 262144 % 8 + 0xf0)) (.ofNat (n / 4096 % 64 + 0x80)) =
        true := isSecondByte_ofNat (by omega) (by omega) (by omega) (by omega)
    refine readUtf8_of_fitting [_, _, _] rest count ?_ ?_
    · rw [followerTests, count]
      exact .cons second (.cons third (.cons fourth .nil))
    · simp only [List.foldl, leadOffset, List.length_cons, List.length_nil, UInt8.toNat_ofNat']
      omega

theorem readUtf8_flatMap_encode (chars : List Char) :
    readUtf8 0 (chars.flatMap String.utf8EncodeChar) = chars.map some := by
  induction chars with
  | nil => rfl
  | cons c chars ih => rw [List.flatMap_cons, readUtf8_encode, ih, List.map_cons]

theorem decodeStrict?_encodeText (s : String) : decodeStrict? (encodeText s) = some s.toList := by
  rw [decodeStrict?, encodeText_eq, readUtf8_flatMap_encode, List.mapM_map]
  exact List.mapM_pure.trans (congrArg some (List.map_id _))

end Utf8

theorem Response.json?_of_text {r : Response} {s : String} {v : Json}
    (body : r.body? = some (encodeText s)) (read : Json.readChars? s.toList = some v) :
    r.json? = some v := by
  rw [json?, body, Option.bind_some, Utf8.decodeStrict?_encodeText]
  exact read

end NodeFleet
