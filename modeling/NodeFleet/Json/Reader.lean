import NodeFleet.Json.Basic
/-!
Reading JSON text. A whole number outside 64 bits, a number with a fraction or an exponent, and
`-0` are floating-point numbers. These take the first digits that fit in 64 bits as a whole number
and scale it once by a power of ten. Values may nest 127 deep.
-/

set_option autoImplicit false
namespace NodeFleet
namespace Json

def isSpace (c : Char) : Bool := c = ' ' || c = '\n' || c = '\t' || c = '\r'

def skipSpace (cs : List Char) : List Char := cs.dropWhile isSpace

/-! ### Texts -/

def hexValue? (c : Char) : Option Nat :=
  if '0' ≤ c ∧ c ≤ '9' then some (c.toNat - '0'.toNat)
  else if 'a' ≤ c ∧ c ≤ 'f' then some (c.toNat - 'a'.toNat + 10)
  else if 'A' ≤ c ∧ c ≤ 'F' then some (c.toNat - 'A'.toNat + 10)
  else none

def unit? (a b c d : Char) : Option Nat := do
  let a ← hexValue? a
  let b ← hexValue? b
  let c ← hexValue? c
  let d ← hexValue? d
  return ((a * 16 + b) * 16 + c) * 16 + d

def simpleEscape? (c : Char) : Option Char :=
  if c = '"' ∨ c = '\\' ∨ c = '/' then some c
  else if c = 'b' then some '\x08'
  else if c = 'f' then some '\x0c'
  else if c = 'n' then some '\n'
  else if c = 'r' then some '\r'
  else if c = 't' then some '\t'
  else none

/-- A character from the code units after a `\u`, and how many characters the second unit takes. -/
def escapedChar? (first : Nat) (rest : List Char) : Option (Char × Nat) :=
  if 0xd800 ≤ first ∧ first < 0xdc00 then
    match rest with
    | '\\' :: 'u' :: a :: b :: c :: d :: _ =>
      (unit? a b c d).bind fun second =>
        if 0xdc00 ≤ second ∧ second < 0xe000 then
          some (Char.ofNat (0x10000 + (first - 0xd800) * 1024 + (second - 0xdc00)), 6)
        else none
    | _ => none
  else if 0xdc00 ≤ first ∧ first < 0xe000 then none
  else some (Char.ofNat first, 0)

def readText : Nat → List Char → Option (List Char × List Char)
  | _, [] => none
  | n + 1, _ :: rest => readText n rest
  | 0, c :: rest =>
    if c = '"' then some ([], rest)
    else if c = '\\' then
      match rest with
      | 'u' :: x :: y :: z :: w :: more =>
        match (unit? x y z w).bind fun u => escapedChar? u more with
        | some (e, n) => (readText (5 + n) rest).map fun r => (e :: r.1, r.2)
        | none => none
      | e :: _ =>
        match simpleEscape? e with
        | some e => (readText 1 rest).map fun r => (e :: r.1, r.2)
        | none => none
      | [] => none
    else if c.toNat < 0x20 then none
    else (readText 0 rest).map fun r => (c :: r.1, r.2)

/-! ### Numbers -/

/-- Digits while the number stays within 64 bits, how many were taken, and the rest. -/
def takeDigits : Nat → List Char → Nat × Nat × List Char
  | n, [] => (n, 0, [])
  | n, c :: rest =>
    if c.isDigit ∧ 10 * n + digitValue c ≤ maxU64 then
      let (m, k, r) := takeDigits (10 * n + digitValue c) rest
      (m, k + 1, r)
    else (n, 0, c :: rest)

def skipDigits (cs : List Char) : Nat × List Char :=
  ((cs.takeWhile Char.isDigit).length, cs.dropWhile Char.isDigit)

def powerOfTen (k : Nat) : Binary64 := Binary64.ofDecimal false 1 k

def divideBy (f d : Binary64) : Binary64 :=
  match f, d with
  | .finite s m e, .finite _ m' e' =>
    let (a, b) := Binary64.ratio m e
    let (c, d) := Binary64.ratio m' e'
    Binary64.mulRatio s (a, b) (d, c)
  | f, _ => f

def multiplyBy (f d : Binary64) : Binary64 :=
  match f, d with
  | .finite s m e, .finite _ m' e' => Binary64.mulRatio s (Binary64.ratio m e) (Binary64.ratio m' e')
  | f, _ => f

def scaleByTen : Nat → Binary64 → Int → Option Binary64
  | 0, f, _ => some f
  | n + 1, f, e =>
    if e.natAbs ≤ 308 then
      if 0 ≤ e then
        match multiplyBy f (powerOfTen e.natAbs) with
        | .infinite _ => none
        | g => some g
      else some (divideBy f (powerOfTen e.natAbs))
    else if f.isZero then some f
    else if 0 ≤ e then none
    else scaleByTen n (divideBy f (powerOfTen 308)) (e + 308)

def floatOf (negative : Bool) (digits : Nat) (exponent : Int) : Option Binary64 :=
  (scaleByTen 4 (Binary64.round false digits 1) exponent).map fun f =>
    if negative then f.neg else f

def readPower (negative : Bool) (digits : Nat) (exponent : Int) (cs : List Char) :
    Option (Binary64 × List Char) :=
  match cs with
  | c :: rest =>
    if c = 'e' ∨ c = 'E' then
      let (minus, rest) := match rest with
        | '-' :: r => (true, r)
        | '+' :: r => (false, r)
        | r => (false, r)
      let (run, rest) := (rest.takeWhile Char.isDigit, rest.dropWhile Char.isDigit)
      if run.isEmpty then none
      else
        let power := digitsValue run
        if maxI32 < power then
          if digits = 0 ∨ minus then
            some (if negative then Binary64.zero.neg else Binary64.zero, rest)
          else none
        else
          (floatOf negative digits (if minus then exponent - power else exponent + power)).map
            fun f => (f, rest)
    else (floatOf negative digits exponent).map fun f => (f, cs)
  | [] => (floatOf negative digits exponent).map fun f => (f, [])

def readFraction (negative : Bool) (digits : Nat) (exponent : Int) (cs : List Char) :
    Option (Binary64 × List Char) :=
  let (m, taken, rest) := takeDigits digits cs
  let (skipped, rest) := skipDigits rest
  if taken + skipped = 0 then none else readPower negative m (exponent - taken) rest

/-- A whole number of which `extra` further digits did not fit. -/
def wholeNumber (negative : Bool) (digits extra : Nat) (rest : List Char) :
    Option (Json × List Char) :=
  if extra ≠ 0 then (floatOf negative digits extra).map fun f => (.float f, rest)
  else if negative then
    if digits = 0 ∨ maxI64 + 1 < digits then (floatOf true digits 0).map fun f => (.float f, rest)
    else some (.integer (-(digits : Int)), rest)
  else some (.integer digits, rest)

def readUnsignedNumber (negative : Bool) (cs : List Char) : Option (Json × List Char) :=
  let first := cs.head?
  let (digits, taken, rest) := takeDigits 0 cs
  let (extra, rest) := skipDigits rest
  if taken = 0 then none
  else if first = some '0' ∧ taken + extra ≠ 1 then none
  else
    match rest with
    | '.' :: r => (readFraction negative digits extra r).map fun p => (.float p.1, p.2)
    | c :: _ =>
      if c = 'e' ∨ c = 'E' then
        (readPower negative digits extra rest).map fun p => (.float p.1, p.2)
      else wholeNumber negative digits extra rest
    | [] => wholeNumber negative digits extra rest

def readNumber (cs : List Char) : Option (Json × List Char) :=
  match cs with
  | '-' :: r => readUnsignedNumber true r
  | r => readUnsignedNumber false r

/-! ### Values -/

def readWord (word : List Char) (v : Json) (cs : List Char) : Option (Json × List Char) :=
  (word.isPrefixOf? cs).map fun r => (v, r)

mutual
def readValue (fuel depth : Nat) (cs : List Char) : Option (Json × List Char) :=
  match fuel with
  | 0 => none
  | fuel + 1 =>
    match skipSpace cs with
    | '"' :: r => (readText 0 r).map fun p => (.text (String.ofList p.1), p.2)
    | '[' :: r =>
      if depth ≤ 1 then none
      else
        match skipSpace r with
        | ']' :: q => some (.list [], q)
        | q => (readItems fuel (depth - 1) q).map fun p => (.list p.1, p.2)
    | '{' :: r =>
      if depth ≤ 1 then none
      else
        match skipSpace r with
        | '}' :: q => some (.object [], q)
        | q => (readFields fuel (depth - 1) q).map fun p => (.object p.1, p.2)
    | 'n' :: r => readWord "ull".toList .null r
    | 't' :: r => readWord "rue".toList (.bool true) r
    | 'f' :: r => readWord "alse".toList (.bool false) r
    | r => readNumber r
def readItems (fuel depth : Nat) (cs : List Char) : Option (List Json × List Char) :=
  match fuel with
  | 0 => none
  | fuel + 1 =>
    match readValue fuel depth cs with
    | none => none
    | some (v, r) =>
      match skipSpace r with
      | ',' :: q => (readItems fuel depth q).map fun p => (v :: p.1, p.2)
      | ']' :: q => some ([v], q)
      | _ => none
def readFields (fuel depth : Nat) (cs : List Char) :
    Option (List (String × Json) × List Char) :=
  match fuel with
  | 0 => none
  | fuel + 1 =>
    match skipSpace cs with
    | '"' :: r =>
      match readText 0 r with
      | none => none
      | some (name, r) =>
        match skipSpace r with
        | ':' :: q =>
          match readValue fuel depth q with
          | none => none
          | some (v, r) =>
            match skipSpace r with
            | ',' :: q =>
              (readFields fuel depth q).map fun p => ((String.ofList name, v) :: p.1, p.2)
            | '}' :: q => some ([(String.ofList name, v)], q)
            | _ => none
        | _ => none
    | _ => none
end

def maxDepth : Nat := 128

def readFront (cs : List Char) : Option (Json × List Char) :=
  readValue (cs.length + 1) maxDepth cs

def readChars? (cs : List Char) : Option Json :=
  match readFront cs with
  | some (v, r) => if (skipSpace r).isEmpty then some v else none
  | none => none

def read? (s : String) : Option Json := readChars? s.toList

end Json
end NodeFleet
