import NodeFleet.Settings.Line
import NodeFleet.Settings.Value

set_option autoImplicit false
namespace NodeFleet
namespace Toml
open SettingsFile

def isBareChar (c : Char) : Bool :=
  (c.toNat < 0x80 && c.isAlphanum) || c = '_' || c = '-'

def hexNumber? (cs : List Char) : Option Nat :=
  cs.foldlM (fun n c => (Json.hexValue? c).map (16 * n + ·)) 0

def codePoint? (n : Nat) (cs : List Char) : Option (Char × List Char) := do
  let digits := cs.take n
  if digits.length < n then none
  else
    let v ← hexNumber? digits
    if v < 0xd800 ∨ (0xe000 ≤ v ∧ v < 0x110000) then pure (Char.ofNat v, cs.drop n) else none

def simpleEscape? (c : Char) : Option Char :=
  if c = '"' ∨ c = '\\' then some c
  else if c = 'n' then some '\n'
  else if c = 't' then some '\t'
  else if c = 'r' then some '\r'
  else if c = 'b' then some '\x08'
  else if c = 'f' then some '\x0c'
  else none

def readBasic : Nat → List Char → Option (List Char × List Char)
  | 0, _ => none
  | _ + 1, [] => none
  | fuel + 1, '\\' :: c :: r =>
    let escaped := match simpleEscape? c with
      | some e => some (e, r)
      | none =>
        if c = 'u' then codePoint? 4 r else if c = 'U' then codePoint? 8 r else none
    match escaped with
    | none => none
    | some (e, r) => (readBasic fuel r).map fun p => (e :: p.1, p.2)
  | fuel + 1, c :: r =>
    if c = '"' then some ([], r)
    else if c = '\\' ∨ (c.toNat < 0x20 ∧ c ≠ '\t') ∨ c.toNat = 0x7f then none
    else (readBasic fuel r).map fun p => (c :: p.1, p.2)

def readLiteral (cs : List Char) : Option (List Char × List Char) :=
  match cutAt '\'' cs with
  | (inner, some r) =>
    if inner.any fun c => (c.toNat < 0x20 && c ≠ '\t') || c.toNat = 0x7f then none
    else some (inner, r)
  | _ => none

/-- Digits with single underscores between them, without a needless leading zero. -/
def plainDigits? (cs : List Char) : Option (List Char) :=
  let groups := piecesAt '_' cs
  let digits := groups.flatten
  if groups.all (fun g => !g.isEmpty && g.all Char.isDigit) && (digits.length = 1 || digits.head? ≠ some '0')
  then some digits else none

def unsigned (cs : List Char) : Bool × List Char :=
  match cs with
  | '-' :: r => (true, r)
  | '+' :: r => (false, r)
  | r => (false, r)

def whole? (cs : List Char) : Option SettingValue := do
  let (negative, digits) := unsigned cs
  let n := digitsValue (← plainDigits? digits)
  let v : Int := if negative then -(n : Int) else n
  if fitsI64 v then pure (.whole v) else none

def number? (cs : List Char) : Option SettingValue := do
  let (negative, r) := unsigned cs
  if r = "inf".toList then pure (.number (.infinite negative))
  else if r = "nan".toList then pure (.number .nan)
  else
    let (mantissa, exponent) := cutAt 'e' (r.map fun c => if c = 'E' then 'e' else c)
    let (head, fraction) := cutAt '.' mantissa
    let digits ← plainDigits? head
    let fractionDigits ← match fraction with
      | none => pure []
      | some f => plainDigits? ('1' :: f) |>.map (·.drop 1)
    if fraction = some [] then none
    let power ← match exponent with
      | none => pure 0
      | some e =>
        let (down, ds) := unsigned e
        (ofDigits? (ds.filter (· ≠ '_'))).map fun n => if down then -(n : Int) else (n : Int)
    if fraction.isNone ∧ exponent.isNone then none
    pure (.number (Binary64.ofDecimal negative (digitsValue (digits ++ fractionDigits))
      (power - fractionDigits.length)))

def readValue? (cs : List Char) : Option SettingValue :=
  match cs with
  | '"' :: r =>
    match readBasic (r.length + 1) r with
    | some (s, rest) => if isRest rest then some (.text (String.ofList s)) else none
    | none => none
  | '\'' :: r =>
    match readLiteral r with
    | some (s, rest) => if isRest rest then some (.text (String.ofList s)) else none
    | none => none
  | _ =>
    let word := cs.takeWhile fun c => !isSpace c && c ≠ '#'
    if !isRest (cs.drop word.length) then none
    else if word = "true".toList then some (.flag true)
    else if word = "false".toList then some (.flag false)
    else (whole? word).orElse fun _ => number? word

def readKey? (cs : List Char) : Option (String × List Char) :=
  match cs with
  | '"' :: r => (readBasic (r.length + 1) r).map fun p => (String.ofList p.1, p.2)
  | '\'' :: r => (readLiteral r).map fun p => (String.ofList p.1, p.2)
  | _ =>
    let name := cs.takeWhile isBareChar
    if name.isEmpty then none else some (String.ofList name, cs.drop name.length)

inductive Line
  | nothing
  | section (name : String)
  | entry (key : String) (value : SettingValue)

def readLine? (line : List Char) : Option Line :=
  match skipSpace line with
  | [] => some .nothing
  | '#' :: _ => some .nothing
  | '[' :: r => do
    let (name, r) ← readKey? (skipSpace r)
    match skipSpace r with
    | ']' :: r => if isRest r then pure (.section name) else none
    | _ => none
  | cs => do
    let (key, r) ← readKey? cs
    match skipSpace r with
    | '=' :: r => (readValue? (skipSpace r)).map (.entry key)
    | _ => none

structure Document where
  entries : Table SettingValue
  current : Option String

namespace Document

def add? (d : Document) : Line → Option Document
  | .nothing => some d
  | .section name =>
    match d.entries.get? name with
    | some _ => none
    | none => some ⟨d.entries.insert name (.table []), some name⟩
  | .entry key value =>
    match d.current with
    | none =>
      match d.entries.get? key with
      | some _ => none
      | none => some { d with entries := d.entries.insert key value }
    | some name =>
      let table := SettingValue.entriesOf ((d.entries.get? name).getD .absent)
      match Table.get? table key with
      | some _ => none
      | none => some { d with entries := d.entries.insert name (.table (Table.insert table key value)) }

end Document

def read? (s : String) : Option (Table SettingValue) := do
  let content ← (lines s).mapM readLine?
  let document ← content.foldlM Document.add? ⟨[], none⟩
  pure document.entries

end Toml
end NodeFleet
