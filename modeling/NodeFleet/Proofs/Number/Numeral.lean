import Mathlib
import NodeFleet.Number.Binary64
import NodeFleet.Text.Blank

set_option autoImplicit false
namespace NodeFleet
namespace Binary64

def signs : List (List Char) := [[], ['-'], ['+']]

inductive Exponent : List Char → Prop
  | absent : Exponent []
  | present {mark : Char} {digits : List Char} (sign : List Char) : mark = 'e' ∨ mark = 'E' →
      sign ∈ signs → digits ≠ [] → (∀ c ∈ digits, c.isDigit = true) →
        Exponent (mark :: (sign ++ digits))

inductive Decimal : List Char → Prop
  | whole {digits exponent : List Char} : digits ≠ [] → (∀ c ∈ digits, c.isDigit = true) →
      Exponent exponent → Decimal (digits ++ exponent)
  | pointed {digits places exponent : List Char} : digits ++ places ≠ [] →
      (∀ c ∈ digits ++ places, c.isDigit = true) → Exponent exponent →
        Decimal (digits ++ '.' :: (places ++ exponent))

def words : List (List Char) := ["inf".toList, "infinity".toList, "nan".toList]

/-- A decimal, or a word for infinity or the missing number in any letter case, with an optional
sign. -/
def IsNumeral (s : String) : Prop :=
  ∃ sign ∈ signs, ∃ cs, s.toList = sign ++ cs ∧ (lowerChars cs ∈ words ∨ Decimal cs)

theorem isSome_readExponent? {cs : List Char} : (readExponent? cs).isSome ↔ Exponent cs := by
  have lifted (ds : List Char) :
      (do let n ← ofDigits? ds; pure (n : Int)).isSome = (ofDigits? ds).isSome := by
    cases ofDigits? ds <;> rfl
  constructor
  · intro read
    cases cs with
    | nil => exact .absent
    | cons c r =>
      unfold readExponent? at read
      dsimp only at read
      split at read
      · rename_i mark
        split at read
        · rename_i ds
          rw [Option.isSome_map, lifted] at read
          obtain ⟨ne, all⟩ := isSome_ofDigits?.mp read
          exact .present ['-'] mark (by decide) ne all
        · rename_i ds
          rw [Option.isSome_map, lifted] at read
          obtain ⟨ne, all⟩ := isSome_ofDigits?.mp read
          exact .present ['+'] mark (by decide) ne all
        · rw [Option.isSome_map, lifted] at read
          obtain ⟨ne, all⟩ := isSome_ofDigits?.mp read
          exact .present [] mark (by decide) ne all
      · cases read
  · intro shape
    cases shape with
    | absent => rfl
    | @present mark digits sign marks signed ne all =>
      obtain ⟨n, value⟩ := Option.isSome_iff_exists.mp (isSome_ofDigits?.mpr ⟨ne, all⟩)
      unfold readExponent?
      dsimp only
      rw [if_pos marks]
      simp only [signs, List.mem_cons, List.not_mem_nil, or_false] at signed
      rcases signed with rfl | rfl | rfl
      · rw [List.nil_append]
        split
        · cases all '-' List.mem_cons_self
        · cases all '+' List.mem_cons_self
        · simp [value]
      · simp [value]
      · simp [value]

section
variable {negative : Bool} {digits places rest : List Char}

theorem readMagnitude?_pointed (ne : digits ++ places ≠ [])
    (all : ∀ c ∈ digits ++ places, c.isDigit = true) (stop : NoDigit rest) :
    readMagnitude? negative (digits ++ '.' :: (places ++ rest)) =
      (readExponent? rest).map fun e =>
        ofDecimal negative (digitsValue (digits ++ places)) (e - places.length) := by
  obtain ⟨allDigits, allPlaces⟩ := List.forall_mem_append.mp all
  have point : NoDigit ('.' :: (places ++ rest)) := noDigit_cons _ rfl
  have ne : (digits.isEmpty && places.isEmpty) = false := by
    simpa [List.append_eq_nil_iff] using ne
  rw [readMagnitude?]
  simp only [takeWhile_isDigit allDigits point, dropWhile_isDigit allDigits point,
    takeWhile_isDigit allPlaces stop, dropWhile_isDigit allPlaces stop, ne]
  rfl

theorem readMagnitude?_unpointed (all : ∀ c ∈ digits, c.isDigit = true) (stop : NoDigit rest)
    (unpointed : rest.head? ≠ some '.') :
    readMagnitude? negative (digits ++ rest) =
      if digits = [] then none
      else (readExponent? rest).map fun e => ofDecimal negative (digitsValue digits) e := by
  rw [readMagnitude?]
  simp only [takeWhile_isDigit all stop, dropWhile_isDigit all stop]
  split
  · exact absurd rfl unpointed
  · simp

theorem readMagnitude?_bare_point (stop : NoDigit rest) :
    readMagnitude? negative ('.' :: rest) = none := by
  have none := @takeWhile_isDigit [] rest nofun stop
  rw [List.nil_append] at none
  simp [readMagnitude?, none, Char.isDigit]

end

theorem Exponent.head {cs : List Char} (h : Exponent cs) : NoDigit cs ∧ cs.head? ≠ some '.' := by
  cases h with
  | absent => exact ⟨noDigit_nil, nofun⟩
  | present _ mark _ _ _ =>
    rcases mark with rfl | rfl
    · exact ⟨noDigit_cons _ rfl, by simp⟩
    · exact ⟨noDigit_cons _ rfl, by simp⟩

theorem isSome_readMagnitude? {negative : Bool} {cs : List Char} :
    (readMagnitude? negative cs).isSome ↔ Decimal cs := by
  constructor
  · intro read
    obtain ⟨digits, rest, rfl, all, stop⟩ := exists_run cs
    by_cases point : rest.head? = some '.'
    · obtain ⟨r, rfl⟩ := List.head?_eq_some_iff.mp point
      obtain ⟨places, rest, rfl, more, stop'⟩ := exists_run r
      have both := List.forall_mem_append.mpr ⟨all, more⟩
      by_cases nothing : digits ++ places = []
      · obtain ⟨rfl, rfl⟩ := List.append_eq_nil_iff.mp nothing
        rw [List.nil_append, List.nil_append, readMagnitude?_bare_point stop'] at read
        cases read
      · rw [readMagnitude?_pointed nothing both stop', Option.isSome_map] at read
        exact .pointed nothing both (isSome_readExponent?.mp read)
    · rw [readMagnitude?_unpointed all stop point] at read
      split at read
      · cases read
      · rename_i ne
        rw [Option.isSome_map] at read
        exact .whole ne all (isSome_readExponent?.mp read)
  · intro shape
    cases shape with
    | whole ne all exponent =>
      obtain ⟨stop, point⟩ := exponent.head
      rw [readMagnitude?_unpointed all stop point, if_neg ne, Option.isSome_map]
      exact isSome_readExponent?.mpr exponent
    | pointed ne all exponent =>
      rw [readMagnitude?_pointed ne all exponent.head.1, Option.isSome_map]
      exact isSome_readExponent?.mpr exponent

def readUnsigned? (negative : Bool) (cs : List Char) : Option Binary64 :=
  let word := lowerChars cs
  if word == "inf".toList || word == "infinity".toList then some (.infinite negative)
  else if word == "nan".toList then some .nan
  else readMagnitude? negative cs

def takeSign (cs : List Char) : Bool × List Char :=
  match cs with
  | '-' :: r => (true, r)
  | '+' :: r => (false, r)
  | cs => (false, cs)

theorem takeSign_of_unsigned {c : Char} (minus : c ≠ '-') (plus : c ≠ '+') (r : List Char) :
    takeSign (c :: r) = (false, c :: r) := by
  unfold takeSign
  split
  · rename_i same
    exact absurd (List.cons.inj same).1 minus
  · rename_i same
    exact absurd (List.cons.inj same).1 plus
  · rfl

theorem exists_sign (cs : List Char) : ∃ sign ∈ signs, cs = sign ++ (takeSign cs).2 := by
  unfold takeSign
  split
  · exact ⟨['-'], by decide, rfl⟩
  · exact ⟨['+'], by decide, rfl⟩
  · exact ⟨[], by decide, rfl⟩

theorem read?_eq (s : String) :
    read? s = readUnsigned? (takeSign s.toList).1 (takeSign s.toList).2 := rfl

theorem isSome_readUnsigned? {negative : Bool} {cs : List Char} :
    (readUnsigned? negative cs).isSome ↔ lowerChars cs ∈ words ∨ Decimal cs := by
  rw [← @isSome_readMagnitude? negative, words, readUnsigned?]
  generalize lowerChars cs = word
  split
  · rename_i infinite
    have named : word = "inf".toList ∨ word = "infinity".toList := by simpa using infinite
    exact iff_of_true rfl (.inl (by rcases named with rfl | rfl <;> simp))
  · rename_i finite
    have finite : word ≠ "inf".toList ∧ word ≠ "infinity".toList := by simpa using finite
    split
    · rename_i nan
      exact iff_of_true rfl (.inl (by simp [eq_of_beq nan]))
    · rename_i known
      have known : word ≠ "nan".toList := by simpa using known
      refine (or_iff_right ?_).symm
      rw [List.mem_cons, List.mem_cons, List.mem_singleton]
      tauto

theorem Decimal.exists_digit {cs : List Char} (h : Decimal cs) : ∃ c ∈ cs, c.isDigit = true := by
  cases h with
  | whole ne all _ =>
    obtain ⟨c, r, rfl⟩ := List.exists_cons_of_ne_nil ne
    exact ⟨c, by simp, all c List.mem_cons_self⟩
  | @pointed digits places exponent ne all _ =>
    obtain ⟨c, mem⟩ := List.exists_mem_of_ne_nil _ ne
    refine ⟨c, ?_, all c mem⟩
    simp only [List.mem_append, List.mem_cons] at mem ⊢
    tauto

theorem Decimal.head {cs : List Char} (h : Decimal cs) :
    ∃ c r, cs = c :: r ∧ (c = '.' ∨ c.isDigit = true) := by
  cases h with
  | whole ne all _ =>
    obtain ⟨c, r, rfl⟩ := List.exists_cons_of_ne_nil ne
    exact ⟨c, _, rfl, .inr (all c List.mem_cons_self)⟩
  | @pointed digits places exponent ne all _ =>
    cases digits with
    | nil => exact ⟨'.', _, rfl, .inl rfl⟩
    | cons c r => exact ⟨c, _, rfl, .inr (all c List.mem_cons_self)⟩

theorem isSome_read? {s : String} : (read? s).isSome ↔ IsNumeral s := by
  rw [read?_eq, isSome_readUnsigned?]
  constructor
  · intro shape
    obtain ⟨sign, signed, text⟩ := exists_sign s.toList
    exact ⟨sign, signed, _, text, shape⟩
  · rintro ⟨sign, signed, cs, text, shape⟩
    simp only [signs, List.mem_cons, List.not_mem_nil, or_false] at signed
    rcases signed with rfl | rfl | rfl
    · obtain ⟨c, r, rfl, minus, plus⟩ : ∃ c r, cs = c :: r ∧ c ≠ '-' ∧ c ≠ '+' := by
        rcases shape with word | decimal
        · cases cs with
          | nil => simp [words, lowerChars] at word
          | cons c r =>
            refine ⟨c, r, rfl, ?_, ?_⟩
            · rintro rfl
              simp [words, lowerChars] at word
            · rintro rfl
              simp [words, lowerChars] at word
        · obtain ⟨c, r, rfl, first⟩ := decimal.head
          refine ⟨c, r, rfl, ?_, ?_⟩
          · rintro rfl
            simp at first
          · rintro rfl
            simp at first
      rwa [text, List.nil_append, takeSign_of_unsigned minus plus]
    · rwa [text]
    · rwa [text]

theorem IsNumeral.not_blank {s : String} (h : IsNumeral s) : isBlank s = false := by
  obtain ⟨sign, -, cs, text, shape⟩ := h
  obtain ⟨c, mem, shown⟩ : ∃ c ∈ cs, isBlankChar c = false := by
    rcases shape with word | decimal
    · have first : ∃ c ∈ cs, c.toLower = 'i' ∨ c.toLower = 'n' := by
        cases cs with
        | nil => simp [words, lowerChars] at word
        | cons c r =>
          refine ⟨c, List.mem_cons_self, ?_⟩
          simp [words, lowerChars] at word
          tauto
      obtain ⟨c, mem, letter⟩ := first
      refine ⟨c, mem, isBlankChar_of_isAlpha ?_⟩
      rw [← Char.isAlpha_toLower_eq_isAlpha]
      rcases letter with letter | letter <;> rw [letter] <;> rfl
    · obtain ⟨c, mem, digit⟩ := decimal.exists_digit
      exact ⟨c, mem, isBlankChar_of_isDigit digit⟩
  rw [← Bool.not_eq_true, not_isBlank_iff, text]
  exact ⟨c, List.mem_append_right _ mem, shown⟩

theorem isNumeral_of_readSigned? {max : Nat} {s : String} {n : Int}
    (h : readSigned? max s = some n) : IsNumeral s := by
  have decimal {ds : List Char} {bound : Nat} {k : Int}
      (read : (do let n ← (ofDigits? ds).filter (· ≤ bound); pure (n : Int)) = some k) :
      Decimal ds := by
    obtain ⟨n, read, -⟩ := Option.bind_eq_some_iff.mp read
    obtain ⟨read, -⟩ := Option.filter_eq_some_iff.mp read
    obtain ⟨ne, all⟩ := isSome_ofDigits?.mp (Option.isSome_of_eq_some read)
    rw [← List.append_nil ds]
    exact .whole ne all .absent
  rw [readSigned?] at h
  split at h
  · rename_i r text
    obtain ⟨k, read, -⟩ := Option.map_eq_some_iff.mp h
    exact ⟨['-'], by decide, r, text, .inr (decimal read)⟩
  · rename_i r text
    obtain ⟨k, read, -⟩ := Option.map_eq_some_iff.mp h
    exact ⟨['+'], by decide, r, text, .inr (decimal read)⟩
  · obtain ⟨k, read, -⟩ := Option.map_eq_some_iff.mp h
    exact ⟨[], by decide, s.toList, rfl, .inr (decimal read)⟩

end Binary64

end NodeFleet
