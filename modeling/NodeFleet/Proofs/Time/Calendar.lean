import Mathlib.Tactic.IntervalCases
import NodeFleet.Time.Calendar

set_option autoImplicit false
namespace NodeFleet
namespace CivilDay

def yearOfEra (day : Nat) : Nat := (day - day / 1460 + day / 36524 - day / 146096) / 365

def daysBeforeYear (year : Nat) : Nat := 365 * year + year / 4 - year / 100

def daysBefore (year : Int) : Int := 365 * year + year / 4 - year / 100 + year / 400

def ofDayOfYear (year : Int) (day : Nat) : CivilDay :=
  let m := (5 * day + 2) / 153
  let month := if m < 10 then m + 3 else m - 9
  ⟨if month ≤ 2 then year + 1 else year, month, day - daysBeforeMonth m + 1⟩

theorem ofDayNumber_eq {n era : Int} {day : Nat} (split : n + 719468 = 146097 * era + day)
    (lt : day < 146097) :
    ofDayNumber n =
      ofDayOfYear (yearOfEra day + era * 400) (day - daysBeforeYear (yearOfEra day)) := by
  have quotient : (n + 719468).fdiv 146097 = era := by
    rw [Int.fdiv_eq_ediv_of_nonneg _ (by decide)]
    omega
  have rest : ((n + 719468).fmod 146097).toNat = day := by
    rw [Int.fmod_eq_emod_of_nonneg _ (by decide)]
    omega
  simp only [ofDayNumber, quotient, rest]
  rfl

/-- The last day of four years exists but at the end of three centuries out of four. -/
def LeapDay (century fours year : Nat) : Prop := year = 3 ∧ (fours < 24 ∨ century = 3)

theorem exists_place {day : Nat} (h : day < 146097) :
    ∃ century fours year rest, day = 36524 * century + 1461 * fours + 365 * year + rest ∧
      century < 4 ∧ fours < 25 ∧ year < 4 ∧
      (rest < 365 ∨ rest = 365 ∧ LeapDay century fours year) := by
  unfold LeapDay
  by_cases last : day = 146096
  · exact ⟨3, 24, 3, 365, by omega⟩
  · by_cases leap : day % 36524 % 1461 = 1460
    · exact ⟨day / 36524, day % 36524 / 1461, 3, 365, by omega⟩
    · exact ⟨day / 36524, day % 36524 / 1461, day % 36524 % 1461 / 365,
        day % 36524 % 1461 % 365, by omega⟩

theorem yearOfEra_place {century fours year rest : Nat} (hc : century < 4) (hf : fours < 25)
    (hy : year < 4) (hr : rest < 365 ∨ rest = 365 ∧ LeapDay century fours year) :
    yearOfEra (36524 * century + 1461 * fours + 365 * year + rest) =
      100 * century + 4 * fours + year := by
  by_cases last : 36524 * century + 1461 * fours + 365 * year + rest = 146096
  · rw [last, show yearOfEra 146096 = 399 from rfl]
    unfold LeapDay at hr
    omega
  · have centuries : (36524 * century + 1461 * fours + 365 * year + rest) / 36524 = century := by
      unfold LeapDay at hr
      omega
    have eras : (36524 * century + 1461 * fours + 365 * year + rest) / 146096 = 0 := by omega
    have days : (36524 * century + 1461 * fours + 365 * year + rest) / 1460 =
        25 * century + fours + (24 * century + fours + 365 * year + rest) / 1460 := by omega
    -- the quotient is one too large only near the end of four years
    have late : (24 * century + fours + 365 * year + rest) / 1460 = 0 ∧ rest < 365 ∨
        (24 * century + fours + 365 * year + rest) / 1460 = 1 ∧ year = 3 ∧ 0 < rest := by
      unfold LeapDay at hr
      omega
    rw [yearOfEra, centuries, eras, days]
    omega

theorem daysBeforeYear_place {century fours year : Nat} (hf : fours < 25) (hy : year < 4) :
    daysBeforeYear (100 * century + 4 * fours + year) =
      36524 * century + 1461 * fours + 365 * year := by
  unfold daysBeforeYear
  omega

theorem isLeapYear_place {century fours year : Nat} (era : Int) (hf : fours < 25)
    (leap : LeapDay century fours year) :
    isLeapYear ((100 * century + 4 * fours + year : Nat) + era * 400 + 1) = true := by
  obtain ⟨rfl, place⟩ := leap
  simp only [isLeapYear, ne_eq, Bool.and_eq_true, Bool.or_eq_true, decide_eq_true_eq]
  omega

/-- A year has a day 365, counted from 0 on the first of March, if it ends with a leap day. -/
def HasDay (year : Int) (day : Nat) : Prop :=
  day < 365 ∨ day = 365 ∧ isLeapYear (year + 1) = true

theorem hasDay_yearOfEra (era : Int) {day : Nat} (h : day < 146097) :
    daysBeforeYear (yearOfEra day) ≤ day ∧ yearOfEra day < 400 ∧
      HasDay (yearOfEra day + era * 400) (day - daysBeforeYear (yearOfEra day)) := by
  obtain ⟨century, fours, year, rest, rfl, hc, hf, hy, hr⟩ := exists_place h
  rw [yearOfEra_place hc hf hy hr, daysBeforeYear_place hf hy, Nat.add_sub_cancel_left]
  exact ⟨by omega, by omega, hr.imp_right (And.imp_right (isLeapYear_place era hf))⟩

theorem daysBeforeMonth_le (day : Nat) : daysBeforeMonth ((5 * day + 2) / 153) ≤ day := by
  unfold daysBeforeMonth
  omega

theorem toDayNumber_ofDayOfYear {year : Int} {day : Nat} (h : day ≤ 365) :
    (ofDayOfYear year day).toDayNumber = daysBefore year + day - 719468 := by
  have fewer := daysBeforeMonth_le day
  have same : (ofDayOfYear year day).toDayNumber =
      365 * year + year.fdiv 4 - year.fdiv 100 + year.fdiv 400 +
        daysBeforeMonth ((5 * day + 2) / 153) +
        ((day - daysBeforeMonth ((5 * day + 2) / 153) + 1 : Nat) : Int) - 1 - 719468 := by
    by_cases early : (5 * day + 2) / 153 < 10
    · simp [ofDayOfYear, toDayNumber, early]
    · have month : (5 * day + 2) / 153 ≤ 11 := by omega
      have back : (5 * day + 2) / 153 - 9 + 9 = (5 * day + 2) / 153 := by omega
      have small : (5 * day + 2) / 153 - 9 ≤ 2 := by omega
      simp [ofDayOfYear, toDayNumber, early, back, small]
  rw [same, Int.fdiv_eq_ediv_of_nonneg _ (by decide), Int.fdiv_eq_ediv_of_nonneg _ (by decide),
    Int.fdiv_eq_ediv_of_nonneg _ (by decide), daysBefore]
  omega

theorem daysBefore_era (era : Int) {year : Nat} (h : year < 400) :
    daysBefore (year + era * 400) = daysBeforeYear year + era * 146097 := by
  simp only [daysBefore, daysBeforeYear]
  omega

theorem daysBeforeMonth_succ (year : Int) {m : Nat} (h : m < 11) :
    daysBeforeMonth (m + 1) =
      daysBeforeMonth m + monthLength year (if m < 10 then m + 3 else m - 9) := by
  interval_cases m <;> rfl

theorem day_ofDayOfYear {year : Int} {day : Nat} (has : HasDay year day) :
    (ofDayOfYear year day).day ≤
      monthLength (ofDayOfYear year day).year (ofDayOfYear year day).month := by
  simp only [ofDayOfYear]
  by_cases early : (5 * day + 2) / 153 < 11
  · refine Nat.sub_lt_left_of_lt_add (daysBeforeMonth_le day) ?_
    rw [← daysBeforeMonth_succ _ early, daysBeforeMonth]
    omega
  · -- February is the last month, and its length that of the next year's
    have last : (5 * day + 2) / 153 = 11 := by
      unfold HasDay at has
      omega
    rw [last]
    change day - 337 + 1 ≤ if isLeapYear (year + 1) = true then 29 else 28
    rcases has with ordinary | ⟨leap, yes⟩
    · split <;> omega
    · rw [if_pos yes]
      omega

theorem isValid_ofDayOfYear {year : Int} {day : Nat} (has : HasDay year day)
    (first : minYear ≤ (ofDayOfYear year day).year)
    (last : (ofDayOfYear year day).year ≤ maxYear) : (ofDayOfYear year day).isValid = true := by
  have months : 1 ≤ (ofDayOfYear year day).month ∧ (ofDayOfYear year day).month ≤ 12 := by
    unfold HasDay at has
    simp only [ofDayOfYear]
    split <;> omega
  have days : 1 ≤ (ofDayOfYear year day).day := Nat.succ_pos _
  simp [isValid, first, last, months, days, day_ofDayOfYear has]

theorem lt_hundred_of_isValid {d : CivilDay} (h : d.isValid = true) :
    d.month < 100 ∧ d.day < 100 := by
  have short : monthLength d.year d.month ≤ 31 := by
    unfold monthLength
    split
    · split <;> decide
    · split <;> decide
  simp only [isValid, Bool.and_eq_true, decide_eq_true_eq] at h
  omega

theorem exists_ofDayOfYear (n : Int) :
    ∃ year day, HasDay year day ∧ n = daysBefore year + day - 719468 ∧
      ofDayNumber n = ofDayOfYear year day := by
  obtain ⟨day, lt, split⟩ : ∃ day : Nat, day < 146097 ∧
      n + 719468 = 146097 * ((n + 719468) / 146097) + day :=
    ⟨((n + 719468) % 146097).toNat, by omega, by omega⟩
  obtain ⟨before, year, has⟩ := hasDay_yearOfEra ((n + 719468) / 146097) lt
  refine ⟨_, _, has, ?_, ofDayNumber_eq split lt⟩
  rw [daysBefore_era _ year]
  omega

theorem toDayNumber_ofDayNumber (n : Int) : (ofDayNumber n).toDayNumber = n := by
  obtain ⟨year, day, has, number, same⟩ := exists_ofDayOfYear n
  have few : day ≤ 365 := by
    unfold HasDay at has
    omega
  rw [same, toDayNumber_ofDayOfYear few, number]

theorem isValid_ofDayNumber {n : Int} (first : minYear ≤ (ofDayNumber n).year)
    (last : (ofDayNumber n).year ≤ maxYear) : (ofDayNumber n).isValid = true := by
  obtain ⟨year, day, has, _, same⟩ := exists_ofDayOfYear n
  rw [same] at first last ⊢
  exact isValid_ofDayOfYear has first last

end CivilDay
end NodeFleet
