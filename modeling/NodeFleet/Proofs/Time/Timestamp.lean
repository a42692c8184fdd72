import NodeFleet.Proofs.Time.Calendar
import NodeFleet.Time.Timestamp

set_option autoImplicit false
namespace NodeFleet
namespace Timestamp

/-! ### Parts of a text -/

theorem takeWhile_digits {max : Nat} {digits rest : List Char}
    (all : ∀ c ∈ digits, c.isDigit = true) (len : digits.length ≤ max) (stop : NoDigit rest) :
    ((digits ++ rest).take max).takeWhile Char.isDigit = digits := by
  rw [List.take_append, List.take_of_length_le len]
  refine takeWhile_isDigit all fun c first => stop c ?_
  rw [List.head?_take] at first
  split at first
  · cases first
  · exact first

theorem readNumber?_append {max : Nat} {digits rest : List Char}
    (all : ∀ c ∈ digits, c.isDigit = true) (ne : digits ≠ []) (len : digits.length ≤ max)
    (stop : NoDigit rest) :
    readNumber? max (digits ++ rest) = some (digitsValue digits, rest) := by
  simp [readNumber?, takeWhile_digits all len stop, ne]

theorem trimStart_digits {digits : List Char} (rest : List Char)
    (all : ∀ c ∈ digits, c.isDigit = true) (ne : digits ≠ []) :
    trimStart (digits ++ rest) = digits ++ rest := by
  obtain ⟨c, r, rfl⟩ := List.exists_cons_of_ne_nil ne
  exact trimStart_cons _ (isBlankChar_of_isDigit (all c List.mem_cons_self))

theorem readNumber?_padded {max width n : Nat} {rest : List Char}
    (len : (padded width n).toList.length ≤ max) (stop : NoDigit rest) :
    readNumber? max ((padded width n).toList ++ rest) = some (n, rest) := by
  rw [readNumber?_append (fun _ => isDigit_of_mem_padded) (padded_ne_nil width n) len stop,
    digitsValue_padded]

theorem readField?_padded {n : Nat} {rest : List Char} (h : n < 100) (stop : NoDigit rest) :
    readField? 2 ((padded 2 n).toList ++ rest) = some (n, rest) := by
  rw [readField?, trimStart_digits rest (fun _ => isDigit_of_mem_padded) (padded_ne_nil 2 n),
    readNumber?_padded (length_padded (by decide) h).le stop]

theorem expect?_cons {c : Char} (rest : List Char) (h : isBlankChar c = false) :
    expect? c (c :: rest) = some rest := by
  simp [expect?, trimStart_cons rest h]

theorem readYear?_unsigned {digits : List Char} (rest : List Char)
    (all : ∀ c ∈ digits, c.isDigit = true) (ne : digits ≠ []) :
    readYear? (digits ++ rest) =
      (readNumber? 4 (digits ++ rest)).map fun p => ((p.1 : Int), p.2) := by
  rw [readYear?, trimStart_digits rest all ne]
  obtain ⟨c, r, rfl⟩ := List.exists_cons_of_ne_nil ne
  have digit := all c List.mem_cons_self
  split
  · rename_i sign
    rw [(List.cons.inj sign).1] at digit
    cases digit
  · rename_i sign
    rw [(List.cons.inj sign).1] at digit
    cases digit
  · rfl

theorem readYear?_yearText (year : Int) {rest : List Char} (stop : NoDigit rest) :
    readYear? ((yearText year).toList ++ rest) = some (year, rest) := by
  have signed : readNumber? ((padded 4 year.natAbs).toList ++ rest).length
      ((padded 4 year.natAbs).toList ++ rest) = some (year.natAbs, rest) :=
    readNumber?_padded (by simp) stop
  unfold yearText
  split
  · rename_i few
    have below : year.toNat < 10000 := by omega
    have short : (padded 4 year.toNat).toList.length ≤ 4 := (length_padded (by decide) below).le
    have whole : (year.toNat : Int) = year := Int.toNat_of_nonneg few.1
    rw [readYear?_unsigned rest (fun _ => isDigit_of_mem_padded) (padded_ne_nil 4 _),
      readNumber?_padded short stop, Option.map_some, whole]
  · split
    · rename_i negative
      have whole : -(year.natAbs : Int) = year := by omega
      have text : ("-" ++ padded 4 year.natAbs).toList ++ rest =
          '-' :: ((padded 4 year.natAbs).toList ++ rest) := by simp
      rw [text, readYear?, trimStart_cons _ (by decide)]
      simp only [signed, Option.map_some, whole]
    · rename_i positive
      have whole : (year.natAbs : Int) = year := by omega
      have text : ("+" ++ padded 4 year.natAbs).toList ++ rest =
          '+' :: ((padded 4 year.natAbs).toList ++ rest) := by simp
      rw [text, readYear?, trimStart_cons _ (by decide)]
      simp only [signed, Option.map_some, whole]

theorem point_append (s : String) (rest : List Char) :
    ("." ++ s).toList ++ rest = '.' :: (s.toList ++ rest) := by
  simp

theorem readFraction?_padded {width n : Nat} {rest : List Char} (pos : 0 < width)
    (le : width ≤ 9) (lt : n < 10 ^ width) (stop : NoDigit rest) :
    readFraction? (("." ++ padded width n).toList ++ rest) =
      some (n * 10 ^ (9 - width), rest) := by
  have len := length_padded pos lt
  have digits : (((padded width n).toList ++ rest).take 9).takeWhile Char.isDigit =
      (padded width n).toList :=
    takeWhile_digits (fun _ => isDigit_of_mem_padded) (len.trans_le le) stop
  have some : (padded width n).toList.isEmpty = false :=
    List.isEmpty_eq_false_iff.mpr (padded_ne_nil width n)
  have all : rest.dropWhile Char.isDigit = rest := by
    cases rest with
    | nil => rfl
    | cons c r => simp [stop c rfl]
  rw [point_append]
  simp only [readFraction?, digits, some, digitsValue_padded, len, List.drop_left' len, all]
  rfl

theorem noDigit_fractionText (n : Nat) {rest : List Char} (stop : NoDigit rest) :
    NoDigit ((fractionText n).toList ++ rest) := by
  unfold fractionText
  split
  · exact stop
  · have point (s : String) : NoDigit (("." ++ s).toList ++ rest) := by
      rw [point_append]
      exact noDigit_cons _ rfl
    split
    · exact point _
    · split
      · exact point _
      · exact point _

theorem readFraction?_fractionText {n : Nat} (h : n < nanosPerSecond) :
    readFraction? ((fractionText n).toList ++ ['Z']) = some (n, ['Z']) := by
  have stop : NoDigit ['Z'] := noDigit_cons [] rfl
  unfold nanosPerSecond at h
  unfold fractionText
  split
  · rename_i zero
    rw [zero]
    rfl
  · split
    · have whole : n / 1000000 * 10 ^ (9 - 3) = n := by omega
      rw [readFraction?_padded (by decide) (by decide) (by omega) stop, whole]
    · split
      · have whole : n / 1000 * 10 ^ (9 - 6) = n := by omega
        rw [readFraction?_padded (by decide) (by decide) (by omega) stop, whole]
      · have whole : n * 10 ^ (9 - 9) = n := Nat.mul_one n
        rw [readFraction?_padded (by decide) (by decide) (by omega) stop, whole]

/-! ### Instants that can be written -/

/-- The year in universal time is one that a text may give. -/
def Named (t : Timestamp) : Prop :=
  CivilDay.minYear ≤ (CivilDay.ofDayNumber t.dayNumber).year ∧
    (CivilDay.ofDayNumber t.dayNumber).year ≤ CivilDay.maxYear

instance (t : Timestamp) : Decidable t.Named := inferInstanceAs (Decidable (_ ∧ _))

structure Writable (t : Timestamp) : Prop where
  named : t.Named
  nanos : t.nanos < 2 * nanosPerSecond
  /-- A leap second is the last second of a minute. -/
  leap : nanosPerSecond ≤ t.nanos → t.secondOfDay % 60 = 59

theorem dayNumber_eq (t : Timestamp) : t.dayNumber = t.seconds / 86400 :=
  Int.fdiv_eq_ediv_of_nonneg _ (by decide)

theorem secondOfDay_eq (t : Timestamp) : t.secondOfDay = t.seconds % 86400 :=
  Int.fmod_eq_emod_of_nonneg _ (by decide)

theorem secondOfDay_bounds (t : Timestamp) : 0 ≤ t.secondOfDay ∧ t.secondOfDay < 86400 := by
  rw [secondOfDay_eq]
  omega

def atClock (day : CivilDay) (hour minute second nanos : Nat) (offset : Int) : Timestamp :=
  ⟨day.toDayNumber * secondsPerDay + (hour * 3600 + minute * 60 + second : Nat) - offset, nanos⟩

def ofClock? (day : CivilDay) (hour minute second nanos : Nat) (offset : Int) :
    Option Timestamp :=
  if day.isValid ∧ hour < 24 ∧ minute < 60 ∧ second < 60 ∧ offset.natAbs < 86400 then
    if (atClock day hour minute second nanos offset).Named then
      some (atClock day hour minute second nanos offset)
    else none
  else none

theorem ofLocal?_eq (day : CivilDay) (hour minute second nanos : Nat) (offset : Int) :
    ofLocal? day hour minute second nanos offset =
      if second = 60 then ofClock? day hour minute 59 (nanos + nanosPerSecond) offset
      else ofClock? day hour minute second nanos offset := by
  by_cases leap : second = 60
  · simp only [ofLocal?, leap, if_true]
    rfl
  · simp only [ofLocal?, leap, if_false]
    rfl

theorem ofClock?_writable {day : CivilDay} {hour minute second nanos : Nat} {offset : Int}
    {t : Timestamp} (whole : offset % 60 = 0) (below : nanos < 2 * nanosPerSecond)
    (leap : nanosPerSecond ≤ nanos → second = 59)
    (h : ofClock? day hour minute second nanos offset = some t) : t.Writable := by
  obtain ⟨_, h⟩ := Option.ite_none_right_eq_some.mp h
  obtain ⟨named, h⟩ := Option.ite_none_right_eq_some.mp h
  obtain rfl := Option.some.inj h
  refine ⟨named, below, fun late => ?_⟩
  have last := leap late
  rw [secondOfDay_eq]
  simp only [atClock, secondsPerDay]
  omega

theorem ofLocal?_writable {day : CivilDay} {hour minute second nanos : Nat} {offset : Int}
    {t : Timestamp} (whole : offset % 60 = 0) (below : nanos < nanosPerSecond)
    (h : ofLocal? day hour minute second nanos offset = some t) : t.Writable := by
  rw [ofLocal?_eq] at h
  split at h
  · exact ofClock?_writable whole (by omega) (fun _ => rfl) h
  · exact ofClock?_writable whole (by omega) (fun late => absurd below (by omega)) h

theorem ofClock?_own {t : Timestamp} (named : t.Named) :
    ofClock? (CivilDay.ofDayNumber t.dayNumber) (t.secondOfDay.toNat / 3600)
        (t.secondOfDay.toNat / 60 % 60) (t.secondOfDay.toNat % 60) t.nanos 0 = some t := by
  obtain ⟨low, high⟩ := secondOfDay_bounds t
  have shown : (CivilDay.ofDayNumber t.dayNumber).isValid = true ∧
      t.secondOfDay.toNat / 3600 < 24 ∧ t.secondOfDay.toNat / 60 % 60 < 60 ∧
      t.secondOfDay.toNat % 60 < 60 ∧ (0 : Int).natAbs < 86400 :=
    ⟨CivilDay.isValid_ofDayNumber named.1 named.2, by omega, by omega, by omega, by decide⟩
  have same : atClock (CivilDay.ofDayNumber t.dayNumber) (t.secondOfDay.toNat / 3600)
      (t.secondOfDay.toNat / 60 % 60) (t.secondOfDay.toNat % 60) t.nanos 0 = t := by
    obtain ⟨seconds, nanos⟩ := t
    rw [secondOfDay_eq] at low high ⊢
    rw [atClock, CivilDay.toDayNumber_ofDayNumber, dayNumber_eq]
    congr 1
    simp only [secondsPerDay] at low high ⊢
    omega
  rw [ofClock?, if_pos shown, same, if_pos named]

theorem ofLocal?_own {t : Timestamp} (h : t.Writable) :
    ofLocal? (CivilDay.ofDayNumber t.dayNumber) (t.secondOfDay.toNat / 3600)
        (t.secondOfDay.toNat / 60 % 60)
        (t.secondOfDay.toNat % 60 + if nanosPerSecond ≤ t.nanos then 1 else 0)
        (if nanosPerSecond ≤ t.nanos then t.nanos - nanosPerSecond else t.nanos) 0 = some t := by
  have own := ofClock?_own h.named
  have bounds := secondOfDay_bounds t
  rw [ofLocal?_eq]
  by_cases leap : nanosPerSecond ≤ t.nanos
  · have last : t.secondOfDay.toNat % 60 = 59 := by
      have ends := h.leap leap
      omega
    rw [last] at own
    simp only [leap, if_true, last, Nat.sub_add_cancel]
    exact own
  · have early : t.secondOfDay.toNat % 60 + 0 ≠ 60 := by omega
    simp only [leap, if_false, early]
    exact own

/-! ### Whole texts -/

def written (d : CivilDay) (hour minute second nanos : Nat) : List Char :=
  (yearText d.year).toList ++ '-' :: ((padded 2 d.month).toList ++
    '-' :: ((padded 2 d.day).toList ++ 'T' :: ((padded 2 hour).toList ++
    ':' :: ((padded 2 minute).toList ++ ':' :: ((padded 2 second).toList ++
    ((fractionText nanos).toList ++ ['Z']))))))

theorem render_toList (t : Timestamp) :
    t.render.toList =
      written (CivilDay.ofDayNumber t.dayNumber) (t.secondOfDay.toNat / 3600)
        (t.secondOfDay.toNat / 60 % 60)
        (t.secondOfDay.toNat % 60 + if nanosPerSecond ≤ t.nanos then 1 else 0)
        (if nanosPerSecond ≤ t.nanos then t.nanos - nanosPerSecond else t.nanos) := by
  have dash : "-".toList = ['-'] := rfl
  have time : "T".toList = ['T'] := rfl
  have colon : ":".toList = [':'] := rfl
  have zone : "Z".toList = ['Z'] := rfl
  simp only [render, written, String.toList_append, List.append_assoc, dash, time, colon, zone,
    List.cons_append, List.nil_append]

theorem read?_of_written {s : String} {t : Timestamp} {d : CivilDay}
    {hour minute second nanos : Nat} (text : s.toList = written d hour minute second nanos)
    (valid : d.isValid = true) (hourLt : hour < 100) (minuteLt : minute < 100)
    (secondLt : second < 100) (nanosLt : nanos < nanosPerSecond)
    (shown : ofLocal? d hour minute second nanos 0 = some t) : read? s = some t := by
  have dash (r : List Char) : NoDigit ('-' :: r) := noDigit_cons r rfl
  have time (r : List Char) : NoDigit ('T' :: r) := noDigit_cons r rfl
  have colon (r : List Char) : NoDigit (':' :: r) := noDigit_cons r rfl
  have stop : NoDigit ((fractionText nanos).toList ++ ['Z']) :=
    noDigit_fractionText nanos (noDigit_cons [] rfl)
  have dashed (r : List Char) := expect?_cons r (by decide : isBlankChar '-' = false)
  have coloned (r : List Char) := expect?_cons r (by decide : isBlankChar ':' = false)
  obtain ⟨monthLt, dayLt⟩ := CivilDay.lt_hundred_of_isValid valid
  rw [read?, text, written]
  dsimp only [Option.bind_eq_bind]
  -- one step for each part of the text, in its order
  refine Option.bind_eq_some_iff.mpr ⟨_, readYear?_yearText d.year (dash _), ?_⟩
  refine Option.bind_eq_some_iff.mpr ⟨_, dashed _, ?_⟩
  refine Option.bind_eq_some_iff.mpr ⟨_, readField?_padded monthLt (dash _), ?_⟩
  refine Option.bind_eq_some_iff.mpr ⟨_, dashed _, ?_⟩
  refine Option.bind_eq_some_iff.mpr ⟨_, readField?_padded dayLt (time _), ?_⟩
  refine Option.ite_none_right_eq_some.mpr ⟨rfl, ?_⟩
  refine Option.bind_eq_some_iff.mpr ⟨_, readField?_padded hourLt (colon _), ?_⟩
  refine Option.bind_eq_some_iff.mpr ⟨_, coloned _, ?_⟩
  refine Option.bind_eq_some_iff.mpr ⟨_, readField?_padded minuteLt (colon _), ?_⟩
  refine Option.bind_eq_some_iff.mpr ⟨_, coloned _, ?_⟩
  refine Option.bind_eq_some_iff.mpr ⟨_, readField?_padded secondLt stop, ?_⟩
  refine Option.bind_eq_some_iff.mpr ⟨_, readFraction?_fractionText nanosLt, ?_⟩
  exact Option.bind_eq_some_iff.mpr ⟨(0, []), rfl, shown⟩

theorem read?_render {t : Timestamp} (h : t.Writable) : read? t.render = some t := by
  obtain ⟨low, high⟩ := secondOfDay_bounds t
  have below := h.nanos
  have second : t.secondOfDay.toNat % 60 + (if nanosPerSecond ≤ t.nanos then 1 else 0) < 100 := by
    split <;> omega
  have fraction : (if nanosPerSecond ≤ t.nanos then t.nanos - nanosPerSecond else t.nanos) <
      nanosPerSecond := by
    split <;> omega
  exact read?_of_written (render_toList t)
    (CivilDay.isValid_ofDayNumber h.named.1 h.named.2) (by omega) (by omega) second fraction
    (ofLocal?_own h)

theorem readFraction?_lt {cs rest : List Char} {n : Nat} (h : readFraction? cs = some (n, rest)) :
    n < nanosPerSecond := by
  unfold readFraction? at h
  split at h
  · rename_i r
    obtain ⟨_, h⟩ := Option.ite_none_left_eq_some.mp h
    obtain ⟨rfl, -⟩ := Prod.mk.inj (Option.some.inj h)
    have len : ((r.take 9).takeWhile Char.isDigit).length ≤ 9 :=
      (List.takeWhile_prefix _).length_le.trans (List.length_take_le 9 r)
    have value := digitsValue_lt
      (List.all_eq_true.mp (List.all_takeWhile (p := Char.isDigit) (l := r.take 9)))
    calc _ < 10 ^ ((r.take 9).takeWhile Char.isDigit).length *
          10 ^ (9 - ((r.take 9).takeWhile Char.isDigit).length) :=
          Nat.mul_lt_mul_of_pos_right value (Nat.pow_pos (by decide))
      _ = nanosPerSecond := by
          rw [← Nat.pow_add, Nat.add_sub_cancel' len]
          rfl
  · obtain ⟨rfl, -⟩ := Prod.mk.inj (Option.some.inj h)
    decide

theorem readOffset?_whole {cs rest : List Char} {offset : Int}
    (h : readOffset? cs = some (offset, rest)) : offset % 60 = 0 := by
  unfold readOffset? at h
  split at h
  · cases h
  · split at h
    · obtain ⟨rfl, -⟩ := Prod.mk.inj (Option.some.inj h)
      rfl
    · split at h
      · obtain ⟨rfl, -⟩ := Prod.mk.inj (Option.some.inj h)
        rfl
      · obtain ⟨_, h⟩ := Option.ite_none_right_eq_some.mp h
        dsimp only [Option.bind_eq_bind] at h
        obtain ⟨hours, _, h⟩ := Option.bind_eq_some_iff.mp h
        obtain ⟨minutes, _, h⟩ := Option.bind_eq_some_iff.mp h
        obtain ⟨_, h⟩ := Option.ite_none_right_eq_some.mp h
        obtain ⟨rfl, -⟩ := Prod.mk.inj (Option.some.inj h)
        split <;> omega

theorem writable_of_read? {s : String} {t : Timestamp} (h : read? s = some t) : t.Writable := by
  unfold read? at h
  dsimp only [Option.bind_eq_bind] at h
  obtain ⟨_, _, h⟩ := Option.bind_eq_some_iff.mp h
  obtain ⟨_, _, h⟩ := Option.bind_eq_some_iff.mp h
  obtain ⟨_, _, h⟩ := Option.bind_eq_some_iff.mp h
  obtain ⟨_, _, h⟩ := Option.bind_eq_some_iff.mp h
  obtain ⟨_, _, h⟩ := Option.bind_eq_some_iff.mp h
  split at h
  · obtain ⟨_, h⟩ := Option.ite_none_right_eq_some.mp h
    obtain ⟨_, _, h⟩ := Option.bind_eq_some_iff.mp h
    obtain ⟨_, _, h⟩ := Option.bind_eq_some_iff.mp h
    obtain ⟨_, _, h⟩ := Option.bind_eq_some_iff.mp h
    obtain ⟨_, _, h⟩ := Option.bind_eq_some_iff.mp h
    obtain ⟨_, _, h⟩ := Option.bind_eq_some_iff.mp h
    obtain ⟨⟨nanos, _⟩, fraction, h⟩ := Option.bind_eq_some_iff.mp h
    obtain ⟨⟨offset, _⟩, zone, h⟩ := Option.bind_eq_some_iff.mp h
    obtain ⟨_, h⟩ := Option.ite_none_right_eq_some.mp h
    exact ofLocal?_writable (readOffset?_whole zone) (readFraction?_lt fraction) h
  · cases h

theorem ofJson?_toJson {t : Timestamp} (h : t.Writable) : ofJson? t.toJson = some t := by
  simp only [ofJson?, toJson, Json.asText?, Option.bind_some, read?_render h]

theorem writable_of_ofJson? {v : Json} {t : Timestamp} (h : ofJson? v = some t) : t.Writable := by
  obtain ⟨_, _, given⟩ := Option.bind_eq_some_iff.mp h
  exact writable_of_read? given

end Timestamp
end NodeFleet
