import NodeFleet.Text.Blank
import NodeFleet.Time.Calendar
import NodeFleet.Time.Span
/-!
Instants in universal time. A leap second is the second before it with at least `10 ^ 9`
nanoseconds. They are read from the internet date and time format, with an offset and with blanks
between the parts, and written in universal time with the fewest of 0, 3, 6 or 9 digits after the
point that are exact.
-/

set_option autoImplicit false
namespace NodeFleet

/-- Seconds since the first of January 1970, and nanoseconds below two seconds. -/
structure Timestamp where
  seconds : Int
  nanos : Nat
deriving DecidableEq, Repr, Inhabited

namespace Timestamp

def secondsPerDay : Int := 86400

def dayNumber (t : Timestamp) : Int := t.seconds.fdiv secondsPerDay

def secondOfDay (t : Timestamp) : Int := t.seconds.fmod secondsPerDay

/--
Nanoseconds from `s` to `t`. A leap second counts as one that has passed when the other instant
is later in its day.
-/
def nanosSince (t s : Timestamp) : Int :=
  let adjust : Int :=
    if s.secondOfDay < t.secondOfDay then (if nanosPerSecond ≤ s.nanos then 1 else 0)
    else if t.secondOfDay < s.secondOfDay then (if nanosPerSecond ≤ t.nanos then -1 else 0)
    else 0
  (t.seconds - s.seconds + adjust) * nanosPerSecond + (t.nanos - s.nanos : Int)

def elapsed (start now : Timestamp) : Span := Span.ofNanos (now.nanosSince start).toNat

def readNumber? (max : Nat) (cs : List Char) : Option (Nat × List Char) :=
  let digits := (cs.take max).takeWhile Char.isDigit
  if digits.isEmpty then none else some (digitsValue digits, cs.drop digits.length)

def readField? (max : Nat) (cs : List Char) : Option (Nat × List Char) :=
  readNumber? max (trimStart cs)

def readYear? (cs : List Char) : Option (Int × List Char) :=
  match trimStart cs with
  | '-' :: r => (readNumber? r.length r).map fun p => (-(p.1 : Int), p.2)
  | '+' :: r => (readNumber? r.length r).map fun p => ((p.1 : Int), p.2)
  | r => (readNumber? 4 r).map fun p => ((p.1 : Int), p.2)

def expect? (c : Char) (cs : List Char) : Option (List Char) :=
  match trimStart cs with
  | x :: r => if x = c then some r else none
  | [] => none

def readFraction? (cs : List Char) : Option (Nat × List Char) :=
  match cs with
  | '.' :: r =>
    let digits := (r.take 9).takeWhile Char.isDigit
    if digits.isEmpty then none
    else
      some (digitsValue digits * Nat.pow 10 (9 - digits.length),
        (r.drop digits.length).dropWhile Char.isDigit)
  | r => some (0, r)

def twoDigits? : List Char → Option (Nat × List Char)
  | a :: b :: r =>
    if a.isDigit && b.isDigit then some (digitsValue [a, b], r) else none
  | _ => none

def isOffsetSeparator (c : Char) : Bool := c = ':' || isBlankChar c

def readOffset? (cs : List Char) : Option (Int × List Char) :=
  match cs with
  | [] => none
  | c :: r =>
    if c = 'Z' ∨ c = 'z' then some (0, r)
    else if (cs.take 3).map Char.toLower == "utc".toList then some (0, cs.drop 3)
    else if c = '+' ∨ c = '-' ∨ c = '\u2212' then do
      let (hours, r) ← twoDigits? r
      let (minutes, r) ← twoDigits? (r.dropWhile isOffsetSeparator)
      if minutes < 60 then
        let seconds : Int := hours * 3600 + minutes * 60
        some (if c = '+' then seconds else -seconds, r)
      else none
    else none

def ofLocal? (day : CivilDay) (hour minute second nanos : Nat) (offset : Int) :
    Option Timestamp :=
  let (second, nanos) := if second = 60 then (59, nanos + nanosPerSecond) else (second, nanos)
  if day.isValid ∧ hour < 24 ∧ minute < 60 ∧ second < 60 ∧ offset.natAbs < 86400 then
    let wall := day.toDayNumber * secondsPerDay + (hour * 3600 + minute * 60 + second : Nat)
    let t : Timestamp := ⟨wall - offset, nanos⟩
    let year := (CivilDay.ofDayNumber t.dayNumber).year
    if CivilDay.minYear ≤ year ∧ year ≤ CivilDay.maxYear then some t else none
  else none

def isDateSeparator (c : Char) : Bool := c = 'T' || c = 't' || c = ' '

def read? (s : String) : Option Timestamp := do
  let (year, r) ← readYear? s.toList
  let r ← expect? '-' r
  let (month, r) ← readField? 2 r
  let r ← expect? '-' r
  let (day, r) ← readField? 2 r
  match r with
  | c :: r =>
    if isDateSeparator c then do
      let (hour, r) ← readField? 2 r
      let r ← expect? ':' r
      let (minute, r) ← readField? 2 r
      let r ← expect? ':' r
      let (second, r) ← readField? 2 r
      let (nanos, r) ← readFraction? r
      let (offset, r) ← readOffset? (trimStart r)
      if (trimStart r).isEmpty then ofLocal? ⟨year, month, day⟩ hour minute second nanos offset
      else none
    else none
  | [] => none

def yearText (y : Int) : String :=
  if 0 ≤ y ∧ y ≤ 9999 then padded 4 y.toNat
  else (if y < 0 then "-" else "+") ++ padded 4 y.natAbs

def fractionText (n : Nat) : String :=
  if n = 0 then ""
  else if n % 1000000 = 0 then "." ++ padded 3 (n / 1000000)
  else if n % 1000 = 0 then "." ++ padded 6 (n / 1000)
  else "." ++ padded 9 n

def render (t : Timestamp) : String :=
  let d := CivilDay.ofDayNumber t.dayNumber
  let s := t.secondOfDay.toNat
  let leap := nanosPerSecond ≤ t.nanos
  yearText d.year ++ "-" ++ padded 2 d.month ++ "-" ++ padded 2 d.day ++ "T"
    ++ padded 2 (s / 3600) ++ ":" ++ padded 2 (s / 60 % 60) ++ ":"
    ++ padded 2 (s % 60 + if leap then 1 else 0)
    ++ fractionText (if leap then t.nanos - nanosPerSecond else t.nanos) ++ "Z"

def ofJson? (v : Json) : Option Timestamp := v.asText?.bind read?

def toJson (t : Timestamp) : Json := .text t.render

end Timestamp
end NodeFleet
