import NodeFleet.Number.Digits
import NodeFleet.Json.Reader

set_option autoImplicit false
namespace NodeFleet

inductive IpAddress
  | v4 (octets : List Nat)
  | v6 (groups : List Nat)
deriving DecidableEq, Repr

namespace IpAddress

def readOctet? (cs : List Char) : Option (Nat × List Char) :=
  let digits := cs.takeWhile Char.isDigit
  if digits.isEmpty ∨ 3 < digits.length then none
  else if digits.head? = some '0' ∧ 1 < digits.length then none
  else if digitsValue digits ≤ 255 then some (digitsValue digits, cs.drop digits.length)
  else none

def expect? (c : Char) : List Char → Option (List Char)
  | x :: r => if x = c then some r else none
  | [] => none

def readV4? (cs : List Char) : Option (List Nat × List Char) := do
  let (a, r) ← readOctet? cs
  let (b, r) ← readOctet? (← expect? '.' r)
  let (c, r) ← readOctet? (← expect? '.' r)
  let (d, r) ← readOctet? (← expect? '.' r)
  return ([a, b, c, d], r)

def hexValue (cs : List Char) : Nat := cs.foldl (fun n c => 16 * n + (Json.hexValue? c).getD 0) 0

def readGroup? (cs : List Char) : Option (Nat × List Char) :=
  let digits := cs.takeWhile fun c => (Json.hexValue? c).isSome
  if digits.isEmpty ∨ 4 < digits.length then none
  else some (hexValue digits, cs.drop digits.length)

def afterSeparator? (first : Bool) (cs : List Char) : Option (List Char) :=
  if first then some cs else expect? ':' cs

/--
At most `limit` groups, the last two of which may be written in the short form. Also says whether
they were, and what follows.
-/
def readGroups : Nat → Bool → List Char → List Nat × Bool × List Char
  | 0, _, cs => ([], false, cs)
  | limit + 1, first, cs =>
    match afterSeparator? first cs with
    | none => ([], false, cs)
    | some r =>
      match if limit = 0 then none else readV4? r with
      | some ([a, b, c, d], q) => ([a * 256 + b, c * 256 + d], true, q)
      | _ =>
        match readGroup? r with
        | none => ([], false, cs)
        | some (g, q) =>
          let (gs, short, q) := readGroups limit false q
          (g :: gs, short, q)

def readV6? (cs : List Char) : Option (List Nat × List Char) :=
  let (head, short, r) := readGroups 8 true cs
  if head.length = 8 then some (head, r)
  else if short then none
  else do
    let r ← expect? ':' r
    let r ← expect? ':' r
    let (tail, _, r) := readGroups (7 - head.length) true r
    return (head ++ List.replicate (8 - head.length - tail.length) 0 ++ tail, r)

def zeroRun (gs : List Nat) : Nat := (gs.takeWhile (· = 0)).length

def longestZeroRun (gs : List Nat) : Nat × Nat :=
  (List.range gs.length).foldl
    (fun best i => if best.2 < zeroRun (gs.drop i) then (i, zeroRun (gs.drop i)) else best) (0, 0)

def groupText (n : Nat) : String := String.ofList (Nat.toDigits 16 n)

def groupsText (gs : List Nat) : String := String.intercalate ":" (gs.map groupText)

def octetsText (os : List Nat) : String := String.intercalate "." (os.map toString)

def render : IpAddress → String
  | .v4 os => octetsText os
  | .v6 gs =>
    if gs.take 6 = [0, 0, 0, 0, 0, 0xffff] then
      match gs.drop 6 with
      | [a, b] => "::ffff:" ++ octetsText [a / 256, a % 256, b / 256, b % 256]
      | _ => groupsText gs
    else
      let (start, length) := longestZeroRun gs
      if 1 < length then groupsText (gs.take start) ++ "::" ++ groupsText (gs.drop (start + length))
      else groupsText gs

def isV6 : IpAddress → Bool
  | .v4 _ => false
  | .v6 _ => true

end IpAddress
end NodeFleet
