set_option autoImplicit false
namespace NodeFleet

def digitValue (c : Char) : Nat := c.toNat - '0'.toNat

def digitsValue (cs : List Char) : Nat := cs.foldl (fun n c => 10 * n + digitValue c) 0

def ofDigits? (cs : List Char) : Option Nat :=
  if cs.isEmpty then none else if cs.all Char.isDigit then some (digitsValue cs) else none

def readUnsigned? (max : Nat) (s : String) : Option Nat :=
  let digits := match s.toList with
    | '+' :: r => r
    | cs => cs
  (ofDigits? digits).filter (· ≤ max)

def readSigned? (max : Nat) (s : String) : Option Int :=
  match s.toList with
  | '-' :: r => ((ofDigits? r).filter (· ≤ max + 1)).map fun n => -(n : Int)
  | '+' :: r => ((ofDigits? r).filter (· ≤ max)).map fun n => (n : Int)
  | cs => ((ofDigits? cs).filter (· ≤ max)).map fun n => (n : Int)

/-! ### Largest numbers of 16, 32 and 64 bits, without (`U`) and with (`I`) a sign -/

def maxU16 : Nat := 65535
def maxU32 : Nat := 4294967295
def maxU64 : Nat := 18446744073709551615
def maxI32 : Nat := 2147483647
def maxI64 : Nat := 9223372036854775807

def fitsI64 (n : Int) : Bool := -(maxI64 : Int) - 1 ≤ n && n ≤ (maxI64 : Int)

def padded (width n : Nat) : String :=
  let digits := (toString n).toList
  String.ofList (List.replicate (width - digits.length) '0' ++ digits)

theorem ofDigits?_eq_some_iff {cs : List Char} {n : Nat} :
    ofDigits? cs = some n ↔ cs ≠ [] ∧ (∀ c ∈ cs, c.isDigit = true) ∧ digitsValue cs = n := by
  rw [ofDigits?]
  cases cs with
  | nil => simp
  | cons c r =>
    rw [← List.all_eq_true]
    cases (c :: r).all Char.isDigit <;> simp

theorem isSome_ofDigits? {cs : List Char} :
    (ofDigits? cs).isSome ↔ cs ≠ [] ∧ ∀ c ∈ cs, c.isDigit = true := by
  simp [Option.isSome_iff_exists, ofDigits?_eq_some_iff]

theorem ofDigits?_toDigits (n : Nat) : ofDigits? (Nat.toDigits 10 n) = some n := by
  have digits : (Nat.toDigits 10 n).all Char.isDigit = true := by
    rw [List.all_eq_true]
    exact fun c mem => Nat.isDigit_of_mem_toDigits (by decide) (by decide) mem
  have value : digitsValue (Nat.toDigits 10 n) = n :=
    Nat.ofDigitChars_toDigits (by decide) (by decide)
  simp [ofDigits?, Nat.toDigits_ne_nil, digits, value]

theorem toDigits_ne_sign (n : Nat) {c : Char} (h : c.isDigit = false) (r : List Char) :
    Nat.toDigits 10 n ≠ c :: r := by
  intro signed
  have digit : c.isDigit = true :=
    Nat.isDigit_of_mem_toDigits (b := 10) (n := n) (by decide) (by decide) (by simp [signed])
  rw [digit] at h
  cases h

theorem readUnsigned?_toString {max n : Nat} (h : n ≤ max) :
    readUnsigned? max (toString n) = some n := by
  have text : (toString n).toList = Nat.toDigits 10 n := Nat.toList_repr
  unfold readUnsigned?
  rw [text]
  split
  · rename_i r signed
    exact absurd signed (toDigits_ne_sign n rfl r)
  · simp [ofDigits?_toDigits, h]

theorem readSigned?_toString {max : Nat} {n : Int} (low : -(max : Int) - 1 ≤ n) (high : n ≤ max) :
    readSigned? max (toString n) = some n := by
  unfold readSigned?
  cases n with
  | ofNat k =>
    have text : (toString (Int.ofNat k)).toList = Nat.toDigits 10 k := Nat.toList_repr
    have fits : k ≤ max := Int.ofNat_le.mp high
    rw [text]
    split
    · rename_i r signed
      exact absurd signed (toDigits_ne_sign k rfl r)
    · rename_i r signed
      exact absurd signed (toDigits_ne_sign k rfl r)
    · simp [ofDigits?_toDigits, Option.filter, fits]
  | negSucc k =>
    have text : (toString (Int.negSucc k)).toList = '-' :: Nat.toDigits 10 (k + 1) := by
      change ("-" ++ toString (k + 1)).toList = _
      rw [String.toList_append]
      exact congrArg (List.cons '-') Nat.toList_repr
    have fits : k ≤ max := by omega
    rw [text, Int.negSucc_eq]
    simp [ofDigits?_toDigits, Option.filter, fits]

theorem readSigned?_bounds {max : Nat} {s : String} {n : Int} (h : readSigned? max s = some n) :
    -(max : Int) - 1 ≤ n ∧ n ≤ max := by
  have bounded {bound : Nat} {cs : List Char} {k : Int}
      (read : (do let n ← (ofDigits? cs).filter (· ≤ bound); pure (n : Int)) = some k) :
      0 ≤ k ∧ k ≤ bound := by
    obtain ⟨n, within, same⟩ := Option.bind_eq_some_iff.mp read
    obtain rfl := Option.some.inj same
    have fits := of_decide_eq_true (Option.filter_eq_some_iff.mp within).2
    omega
  unfold readSigned? at h
  split at h
  · obtain ⟨k, read, same⟩ := Option.map_eq_some_iff.mp h
    have := bounded read
    omega
  · obtain ⟨k, read, same⟩ := Option.map_eq_some_iff.mp h
    have := bounded read
    omega
  · obtain ⟨k, read, same⟩ := Option.map_eq_some_iff.mp h
    have := bounded read
    omega

/-- An optional plus sign and then only digits, at least one, that write the number. -/
def WritesUnsigned (s : String) (n : Nat) : Prop :=
  ∃ digits, (s.toList = digits ∨ s.toList = '+' :: digits) ∧ digits ≠ [] ∧
    (∀ c ∈ digits, c.isDigit = true) ∧ digitsValue digits = n

theorem readUnsigned?_eq_some_iff {max n : Nat} {s : String} :
    readUnsigned? max s = some n ↔ WritesUnsigned s n ∧ n ≤ max := by
  have read (digits : List Char) : (ofDigits? digits).filter (· ≤ max) = some n ↔
      (digits ≠ [] ∧ (∀ c ∈ digits, c.isDigit = true) ∧ digitsValue digits = n) ∧ n ≤ max := by
    simp [Option.filter_eq_some_iff, ofDigits?_eq_some_iff]
  simp only [readUnsigned?, read]
  constructor
  · rintro ⟨digits, within⟩
    split at digits
    · rename_i r signed
      exact ⟨⟨r, .inr signed, digits⟩, within⟩
    · exact ⟨⟨s.toList, .inl rfl, digits⟩, within⟩
  · rintro ⟨⟨digits, text, ne, all, value⟩, within⟩
    refine ⟨?_, within⟩
    split
    · rename_i r signed
      rcases text with text | text
      -- a sign is no digit
      · cases all '+' (by simp [← text, signed])
      · obtain rfl := (List.cons.inj (signed.symm.trans text)).2
        exact ⟨ne, all, value⟩
    · rename_i unsigned
      rcases text with text | text
      · exact text ▸ ⟨ne, all, value⟩
      · exact absurd text (unsigned digits)

theorem WritesUnsigned.char {s : String} {n : Nat} (h : WritesUnsigned s n) {c : Char}
    (mem : c ∈ s.toList) : c = '+' ∨ c.isDigit = true := by
  obtain ⟨digits, text | text, -, all, -⟩ := h
  · exact .inr (all c (text ▸ mem))
  · rw [text] at mem
    exact (List.mem_cons.mp mem).imp_right (all c)

/-! ### Runs of digits -/

def NoDigit (rest : List Char) : Prop := ∀ c ∈ rest.head?, c.isDigit = false

theorem noDigit_nil : NoDigit [] := nofun

theorem noDigit_cons {c : Char} (rest : List Char) (h : c.isDigit = false) :
    NoDigit (c :: rest) := by
  intro first mem
  rw [List.head?_cons, Option.mem_some_iff] at mem
  exact mem ▸ h

section
variable {digits rest : List Char}

theorem takeWhile_isDigit (all : ∀ c ∈ digits, c.isDigit = true) (stop : NoDigit rest) :
    (digits ++ rest).takeWhile Char.isDigit = digits := by
  have none : rest.takeWhile Char.isDigit = [] := by
    cases rest with
    | nil => rfl
    | cons c r => exact List.takeWhile_cons_of_neg (by simp [stop c rfl])
  rw [List.takeWhile_append_of_pos all, none, List.append_nil]

theorem dropWhile_isDigit (all : ∀ c ∈ digits, c.isDigit = true) (stop : NoDigit rest) :
    (digits ++ rest).dropWhile Char.isDigit = rest := by
  have same : rest.dropWhile Char.isDigit = rest := by
    cases rest with
    | nil => rfl
    | cons c r => exact List.dropWhile_cons_of_neg (by simp [stop c rfl])
  rw [List.dropWhile_append_of_pos all, same]

theorem exists_run (cs : List Char) : ∃ digits rest, cs = digits ++ rest ∧
    (∀ c ∈ digits, c.isDigit = true) ∧ NoDigit rest := by
  refine ⟨cs.takeWhile Char.isDigit, cs.dropWhile Char.isDigit,
    List.takeWhile_append_dropWhile.symm, List.all_eq_true.mp List.all_takeWhile,
    fun c first => ?_⟩
  have stop := List.head?_dropWhile_not Char.isDigit cs
  rw [Option.mem_def.mp first] at stop
  simpa using stop

end

/-! ### Values and padded texts -/

theorem digitValue_lt {c : Char} (h : c.isDigit = true) : digitValue c < 10 := by
  simp only [Char.isDigit, Bool.and_eq_true, decide_eq_true_eq] at h
  have upper : c.toNat ≤ 57 := UInt32.le_iff_toNat_le.mp h.2
  change c.toNat - 48 < 10
  omega

theorem digitsValue_lt {cs : List Char} (h : ∀ c ∈ cs, c.isDigit = true) :
    digitsValue cs < Nat.pow 10 cs.length := by
  have scaled (n m : Nat) (lt : n < m) :
      cs.foldl (fun n c => 10 * n + digitValue c) n < m * 10 ^ cs.length := by
    induction cs generalizing n m with
    | nil => simpa using lt
    | cons c r ih =>
      obtain ⟨first, rest⟩ := List.forall_mem_cons.mp h
      have digit := digitValue_lt first
      have later := ih rest (10 * n + digitValue c) (10 * m) (by omega)
      rw [List.foldl_cons, List.length_cons, Nat.pow_succ, Nat.mul_comm (10 ^ r.length),
        ← Nat.mul_assoc, Nat.mul_comm m]
      exact later
  have all := scaled 0 1 Nat.zero_lt_one
  rwa [Nat.one_mul] at all

theorem padded_toList (width n : Nat) :
    (padded width n).toList =
      List.replicate (width - (Nat.toDigits 10 n).length) '0' ++ Nat.toDigits 10 n := by
  have text : (toString n).toList = Nat.toDigits 10 n := Nat.toList_repr
  rw [padded, String.toList_ofList, text]

theorem isDigit_of_mem_padded {width n : Nat} {c : Char} (mem : c ∈ (padded width n).toList) :
    c.isDigit = true := by
  rw [padded_toList] at mem
  rcases List.mem_append.mp mem with zero | digit
  · rw [List.eq_of_mem_replicate zero]
    rfl
  · exact Nat.isDigit_of_mem_toDigits (by decide) (by decide) digit

theorem padded_ne_nil (width n : Nat) : (padded width n).toList ≠ [] := by
  rw [padded_toList]
  exact List.append_ne_nil_of_right_ne_nil _ Nat.toDigits_ne_nil

theorem length_padded {width n : Nat} (pos : 0 < width) (h : n < Nat.pow 10 width) :
    (padded width n).toList.length = width := by
  have short := (Nat.length_toDigits_le_iff (b := 10) (by decide) pos).mpr h
  rw [padded_toList, List.length_append, List.length_replicate]
  omega

theorem digitsValue_zeros_append (k n : Nat) :
    digitsValue (List.replicate k '0' ++ Nat.toDigits 10 n) = n := by
  change Nat.ofDigitChars 10 _ 0 = n
  rw [Nat.ofDigitChars_append, Nat.ofDigitChars_replicate_zero, Nat.mul_zero,
    Nat.ofDigitChars_toDigits (by decide) (by decide)]

theorem digitsValue_padded (width n : Nat) : digitsValue (padded width n).toList = n := by
  rw [padded_toList, digitsValue_zeros_append]

end NodeFleet
