import NodeFleet.Net.IpAddress
import NodeFleet.Text.Blank
import NodeFleet.Text.Cut
import NodeFleet.Text.Utf8

set_option autoImplicit false
namespace NodeFleet
namespace Host

def isForbidden (c : Char) : Bool :=
  c = '\x00' || "\t\n\r #/:<>?@[\\]^|".toList.contains c

def isForbiddenInDomain (c : Char) : Bool :=
  isForbidden c || c.toNat < 0x20 || c = '%' || c = '\x7f'

def escapedByte? (b : UInt8) (rest : Bytes) : Option UInt8 :=
  match rest with
  | h :: l :: _ =>
    if b = 0x25 then do
      let h ← Json.hexValue? (Char.ofNat h.toNat)
      let l ← Json.hexValue? (Char.ofNat l.toNat)
      return UInt8.ofNat (h * 16 + l)
    else none
  | _ => none

def resolveEscapes : Nat → Bytes → Bytes
  | _, [] => []
  | n + 1, _ :: rest => resolveEscapes n rest
  | 0, b :: rest =>
    match escapedByte? b rest with
    | some e => e :: resolveEscapes 2 rest
    | none => b :: resolveEscapes 0 rest

def isIgnored (c : Char) : Bool :=
  c = '\u00ad' || c = '\u200b' || c = '\u2060' || c = '\ufeff' || c = '\u034f'
    || ('\ufe00' ≤ c && c ≤ '\ufe0f')

/-- Wide forms count as the ASCII characters they show. -/
def narrow (c : Char) : Char :=
  if '\uff01' ≤ c ∧ c ≤ '\uff5e' then Char.ofNat (c.toNat - 0xff01 + 0x21)
  else if c = '\u3002' ∨ c = '\uff61' then '.'
  else c

def isUnassigned (c : Char) : Bool :=
  (0x80 ≤ c.toNat && (isBlankChar c || c.toNat < 0xa0)) || c = replacementChar
    || (0xe000 ≤ c.toNat && c.toNat ≤ 0xf8ff) || (0xe0000 ≤ c.toNat)

def domain? (cs : List Char) : Option (List Char) := do
  let bytes := resolveEscapes 0 (encodeText (String.ofList cs))
  let cs ← decodeStrict? bytes
  let cs := ((cs.filter fun c => !isIgnored c).map narrow).map Char.toLower
  if cs.any fun c => isForbiddenInDomain c || isUnassigned c then none else some cs

def inBase? (base : Nat) (cs : List Char) : Option Nat :=
  cs.foldlM (fun n c => (Json.hexValue? c).bind fun d =>
    if d < base then some (base * n + d) else none) 0

def readNumber? (cs : List Char) : Option Nat :=
  match cs with
  | [] => none
  | '0' :: 'x' :: r => inBase? 16 r
  | '0' :: 'X' :: r => inBase? 16 r
  | '0' :: r => if r.isEmpty then some 0 else inBase? 8 r
  | r => inBase? 10 r

def labels (cs : List Char) : List (List Char) :=
  let ps := piecesAt '.' cs
  if ps.getLast? = some [] ∧ 1 < ps.length then ps.dropLast else ps

/-- Whether the last label reads as a number, so that the host has to be an address. -/
def endsInNumber (cs : List Char) : Bool :=
  match (labels cs).getLast? with
  | some last => !last.isEmpty && (last.all Char.isDigit || (readNumber? last).isSome)
  | none => false

/-- Up to four numbers, of which the last fills the bytes that the others leave. -/
def isNumericAddress (cs : List Char) : Bool :=
  match (labels cs).mapM readNumber? with
  | some numbers =>
    match numbers.reverse with
    | last :: others =>
      others.length < 4 && others.all (· ≤ 255) && last < Nat.pow 256 (4 - others.length)
    | [] => false
  | none => false

def isBracketed (cs : List Char) : Bool :=
  match cs with
  | '[' :: r =>
    r.getLast? = some ']' &&
      match IpAddress.readV6? r.dropLast with
      | some (_, []) => true
      | _ => false
  | _ => false

def isDomain (cs : List Char) : Bool :=
  if cs.head? = some '[' then isBracketed cs
  else
    match domain? cs with
    | some d => !d.isEmpty && (!endsInNumber d || isNumericAddress d)
    | none => false

def isPlain (cs : List Char) : Bool :=
  if cs.head? = some '[' then isBracketed cs else !cs.any isForbidden

end Host
end NodeFleet
