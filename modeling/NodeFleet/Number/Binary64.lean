import NodeFleet.Number.Digits
/-!
Floating-point numbers of 64 bits as exact values: a sign, a whole number below `2 ^ 53` and a
power of two. Rounding goes to the nearest such value, a tie to the even whole number. Reading and
printing of decimals are built on it; printing takes the fewest digits that read back.
-/

set_option autoImplicit false
namespace NodeFleet

inductive Binary64
  | finite (negative : Bool) (mantissa : Nat) (exponent : Int)
  | infinite (negative : Bool)
  | nan
deriving DecidableEq, Repr

namespace Binary64

def zero : Binary64 := .finite false 0 (-1074)

def scaled (num den : Nat) (e : Int) : Nat × Nat :=
  if e < 0 then (num * Nat.pow 2 e.natAbs, den) else (num, den * Nat.pow 2 e.natAbs)

def roundQuotient (num den : Nat) : Nat :=
  let q := num / den
  let r := num % den
  if 2 * r < den then q
  else if den < 2 * r then q + 1
  else if q % 2 = 0 then q else q + 1

def leastFull : Nat := 4503599627370496

/-- Exponent for which `num / den` has 53 binary digits before the point, but at least -1074. -/
def exponentFor (num den : Nat) : Int :=
  let guess := (Nat.log2 num : Int) - (Nat.log2 den : Int) - 52
  let lower :=
    if (scaled num den guess).1 < leastFull * (scaled num den guess).2 then guess - 1 else guess
  max lower (-1074)

def round (negative : Bool) (num den : Nat) : Binary64 :=
  if num = 0 ∨ den = 0 then .finite negative 0 (-1074)
  else
    let e := exponentFor num den
    let m := roundQuotient (scaled num den e).1 (scaled num den e).2
    let (m, e) := if m = 2 * leastFull then (leastFull, e + 1) else (m, e)
    if 971 < e then .infinite negative else .finite negative m e

def ratio (mantissa : Nat) (exponent : Int) : Nat × Nat :=
  if exponent < 0 then (mantissa, Nat.pow 2 exponent.natAbs)
  else (mantissa * Nat.pow 2 exponent.natAbs, 1)

def ofDecimal (negative : Bool) (digits : Nat) (exponent : Int) : Binary64 :=
  if digits = 0 then .finite negative 0 (-1074)
  else
    let size : Int := (toString digits).length + exponent
    if 400 < size then .infinite negative
    else if size < -400 then .finite negative 0 (-1074)
    else if exponent < 0 then round negative digits (Nat.pow 10 exponent.natAbs)
    else round negative (digits * Nat.pow 10 exponent.natAbs) 1

def neg : Binary64 → Binary64
  | .finite s m e => .finite (!s) m e
  | .infinite s => .infinite (!s)
  | .nan => .nan

def isZero : Binary64 → Bool
  | .finite _ m _ => m == 0
  | _ => false

def mulRatio (s : Bool) (a b : Nat × Nat) : Binary64 := round s (a.1 * b.1) (a.2 * b.2)

def decimalExponent (num den : Nat) : Int :=
  if den ≤ num then ((toString (num / den)).length : Int) - 1
  else
    let k := (toString (den / num)).length
    if den ≤ num * Nat.pow 10 (k - 1) then -((k : Int) - 1) else -(k : Int)

def gridNeighbours (num den : Nat) (p : Int) : Nat × Nat :=
  let q := if p < 0 then num * Nat.pow 10 p.natAbs / den else num / (den * Nat.pow 10 p.natAbs)
  (q, q + 1)

def gridDistance (num den d : Nat) (p : Int) : Nat :=
  let (a, b) :=
    if p < 0 then (num * Nat.pow 10 p.natAbs, d * den) else (num, d * Nat.pow 10 p.natAbs * den)
  if a ≤ b then b - a else a - b

/--
The decimal with `n` digits nearest to the value among those that read back as it: digits and
power of ten.
-/
def decimalOf (x : Binary64) (num den n : Nat) : Option (Nat × Int) :=
  let p := decimalExponent num den - ((n : Int) - 1)
  let (lo, hi) := gridNeighbours num den p
  let back := fun d => ofDecimal false d p == x
  match back lo, back hi with
  | true, true =>
    if gridDistance num den hi p < gridDistance num den lo p then some (hi, p) else some (lo, p)
  | true, false => some (lo, p)
  | false, true => some (hi, p)
  | false, false => none

def stripZeros : Nat → Nat × Int → Nat × Int
  | 0, d => d
  | n + 1, (d, p) => if d ≠ 0 ∧ d % 10 = 0 then stripZeros n (d / 10, p + 1) else (d, p)

def shortest (mantissa : Nat) (exponent : Int) : Nat × Int :=
  if mantissa = 0 then (0, 0)
  else
    let (num, den) := ratio mantissa exponent
    let x := Binary64.finite false mantissa exponent
    match (List.range 17).findSome? fun i => decimalOf x num den (i + 1) with
    | some d => stripZeros 20 d
    | none => (0, 0)

def signText (negative : Bool) : String := if negative then "-" else ""

def positional (digits : Nat) (power : Int) : String :=
  let text := (toString digits).toList
  if 0 ≤ power then String.ofList (text ++ List.replicate (if digits = 0 then 0 else power.toNat) '0')
  else
    let places := power.natAbs
    if text.length ≤ places then
      String.ofList ('0' :: '.' :: List.replicate (places - text.length) '0' ++ text)
    else
      String.ofList (text.take (text.length - places) ++ '.' :: text.drop (text.length - places))

def plainText : Binary64 → String
  | .nan => "NaN"
  | .infinite s => signText s ++ "inf"
  | .finite s m e => signText s ++ positional (shortest m e).1 (shortest m e).2

/--
Text inside JSON: a point and a zero after whole numbers, an exponent below `1e-5` and from
`1e16` on.
-/
def jsonText : Binary64 → String
  | .nan => "null"
  | .infinite _ => "null"
  | .finite s m e =>
    let (digits, power) := shortest m e
    let text := toString digits
    let point := (text.length : Int) + power
    if digits = 0 then signText s ++ "0.0"
    else if 0 ≤ power ∧ point ≤ 16 then signText s ++ positional digits power ++ ".0"
    else if -5 < point ∧ point ≤ 16 then signText s ++ positional digits power
    else
      let tail := text.toList.drop 1
      let frac := if tail.isEmpty then "" else "." ++ String.ofList tail
      signText s ++ String.ofList (text.toList.take 1) ++ frac ++ "e" ++ toString (point - 1)

def lowerChars (cs : List Char) : List Char := cs.map Char.toLower

def readExponent? : List Char → Option Int
  | [] => some 0
  | c :: r =>
    if c = 'e' ∨ c = 'E' then
      match r with
      | '-' :: ds => (ofDigits? ds).map fun n => -(n : Int)
      | '+' :: ds => (ofDigits? ds).map fun n => (n : Int)
      | ds => (ofDigits? ds).map fun n => (n : Int)
    else none

def readMagnitude? (negative : Bool) (cs : List Char) : Option Binary64 :=
  let whole := cs.takeWhile Char.isDigit
  let rest := cs.dropWhile Char.isDigit
  let (fraction, rest) := match rest with
    | '.' :: r => (r.takeWhile Char.isDigit, r.dropWhile Char.isDigit)
    | r => ([], r)
  if whole.isEmpty && fraction.isEmpty then none
  else
    (readExponent? rest).map fun e =>
      ofDecimal negative (digitsValue (whole ++ fraction)) (e - fraction.length)

def read? (s : String) : Option Binary64 :=
  let (negative, cs) := match s.toList with
    | '-' :: r => (true, r)
    | '+' :: r => (false, r)
    | cs => (false, cs)
  let word := lowerChars cs
  if word == "inf".toList || word == "infinity".toList then some (.infinite negative)
  else if word == "nan".toList then some .nan
  else readMagnitude? negative cs

/-- The nearest whole number, halves away from zero; clamped to 0 and `max`. -/
def toUnsigned (max : Nat) : Binary64 → Nat
  | .nan => 0
  | .infinite s => if s then 0 else max
  | .finite s m e =>
    if s then 0
    else
      let (num, den) := ratio m e
      min max ((2 * num + den) / (2 * den))

end Binary64
end NodeFleet
