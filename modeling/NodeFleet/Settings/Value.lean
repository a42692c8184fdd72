import NodeFleet.Settings.Line
import NodeFleet.Settings.Reading
import NodeFleet.Text.Ascii

set_option autoImplicit false
namespace NodeFleet

inductive SettingValue
  | absent
  | flag (b : Bool)
  | whole (n : Int)
  | number (x : Binary64)
  | text (s : String)
  | list (items : List SettingValue)
  | table (entries : List (String × SettingValue))
deriving Repr, Inhabited

namespace SettingValue

def entriesOf : SettingValue → Table SettingValue
  | .table entries => entries
  | _ => []

mutual
/-- Puts a value at a key of a table. Tables merge; every other value replaces what was there. -/
def put (root : SettingValue) (key : String) : SettingValue → SettingValue
  | .table entries =>
    let old := ((entriesOf root).get? key).getD (.table [])
    .table ((entriesOf root).insert key (putAll old entries))
  | v => .table ((entriesOf root).insert key v)
def putAll (root : SettingValue) : List (String × SettingValue) → SettingValue
  | [] => root
  | (key, v) :: r => putAll (put root (lowerKey key) v) r
end

inductive Step
  | name (key : String)
  | position (i : Int)
deriving DecidableEq, Repr

def itemsOf : SettingValue → List SettingValue
  | .list items => items
  | _ => []

/-- Changes the item at a position, which counts from the end if it is negative; a list that is too
short is filled up. -/
def modifyItem (items : List SettingValue) (i : Int) (f : SettingValue → SettingValue) :
    List SettingValue :=
  let n := if i < 0 then items.length - i.natAbs else i.toNat
  (items ++ List.replicate (n + 1 - items.length) absent).modify n f

def putAt (root : SettingValue) : List Step → SettingValue → SettingValue
  | [], v => v
  | [.name key], v => put root key v
  | .name key :: r, v =>
    .table ((entriesOf root).insert key (putAt (((entriesOf root).get? key).getD .absent) r v))
  | .position i :: r, v => .list (modifyItem (itemsOf root) i fun old => putAt old r v)

def isPathChar (c : Char) : Bool :=
  (c.toNat < 0x80 && c.isAlphanum) || c = ' ' || c = '_' || c = '-'

def subscript? (cs : List Char) : Option Step :=
  let digits := SettingsFile.trimSpace (SettingsFile.skipSpace cs.dropLast)
  if cs.getLast? = some ']' ∧ digits.head? ≠ some '+' then
    (readSigned? maxI64 (String.ofList digits)).map .position
  else none

def steps? (cs : List Char) : Option (List Step) :=
  let name := cs.takeWhile isPathChar
  match piecesAt '[' (cs.drop name.length) with
  | [] :: subscripts =>
    if name.isEmpty then none
    else (subscripts.mapM subscript?).map (.name (String.ofList name) :: ·)
  | _ => none

/-- A key with dots between names is a path; any other key is a single name. -/
def pathOf (key : String) : List Step :=
  match (piecesAt '.' key.toList).mapM steps? with
  | some pieces => pieces.flatten
  | none => [.name key]

def layer (root : SettingValue) (source : List (String × SettingValue)) : SettingValue :=
  source.foldl (fun t e => putAt t (pathOf (lowerKey e.1)) e.2) root

def ofInteger (n : Int) : SettingValue :=
  if fitsI64 n then .whole n
  else .number (Binary64.round (n < 0) n.natAbs 1)

mutual
def ofJson : Json → SettingValue
  | .null => .absent
  | .bool b => .flag b
  | .integer n => ofInteger n
  | .float x => .number x
  | .text s => .text s
  | .list items => .list (ofJsonItems items)
  | .object fields => .table (ofJsonFields fields)
def ofJsonItems : List Json → List SettingValue
  | [] => []
  | v :: r => ofJson v :: ofJsonItems r
def ofJsonFields : List (String × Json) → List (String × SettingValue)
  | [] => []
  | (k, v) :: r => (k, ofJson v) :: ofJsonFields r
end

def trueWords : List String := ["true", "on", "yes"]
def falseWords : List String := ["false", "off", "no"]

def asText? : SettingValue → Option String
  | .text s => some s
  | .flag b => some (if b then "true" else "false")
  | .whole n => some (toString n)
  | .number x => some x.plainText
  | _ => none

def asOptionalText? : SettingValue → Option (Option String)
  | .absent => some none
  | v => v.asText?.map some

/-- Fractions are rounded, halves away from zero, and cut to the range. -/
def asUnsigned? : SettingValue → Option Nat
  | .flag b => some (if b then 1 else 0)
  | .whole n => if 0 ≤ n ∧ n ≤ maxU64 then some n.toNat else none
  | .number x => some (x.toUnsigned maxU64)
  | .text s =>
    if trueWords.contains (lowerAscii s) then some 1
    else if falseWords.contains (lowerAscii s) then some 0
    else readUnsigned? maxU64 s
  | _ => none

def asFlag? : SettingValue → Option Bool
  | .flag b => some b
  | .whole n => some (n ≠ 0)
  | .number x => some (!x.isZero)
  | .text s =>
    if ("1" :: trueWords).contains (lowerAscii s) then some true
    else if ("0" :: falseWords).contains (lowerAscii s) then some false
    else none
  | _ => none

/-- A table by names, a list by order; surplus items do not count. -/
def asRecord? (names : List String) : SettingValue → Option (List (Option SettingValue))
  | .table entries => some (names.map (Table.get? entries ·))
  | .list items => some ((List.range names.length).map fun i => items[i]?)
  | _ => none

def understanding : Understanding SettingValue where
  record? := asRecord?
  text? := asText?
  optionalText? := asOptionalText?
  unsigned? := asUnsigned?
  flag? := asFlag?

end SettingValue
end NodeFleet
