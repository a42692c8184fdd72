import NodeFleet.Settings.Line
import NodeFleet.Settings.Value

set_option autoImplicit false
namespace NodeFleet
namespace Yaml
open SettingsFile

def inBase? (base : Nat) (cs : List Char) : Option Int := do
  if cs.isEmpty then none
  let n ← cs.foldlM (fun n c => do
    let d ← Json.hexValue? c
    if d < base then pure (base * n + d) else none) 0
  if n ≤ maxI64 then pure (n : Int) else none

def infinityWords : List String := [".inf", ".Inf", ".INF", "+.inf", "+.Inf", "+.INF"]
def negativeInfinityWords : List String := ["-.inf", "-.Inf", "-.INF"]
def nanWords : List String := [".nan", "NaN", ".NAN"]

def number? (s : String) : Option Binary64 :=
  if infinityWords.contains s then some (.infinite false)
  else if negativeInfinityWords.contains s then some (.infinite true)
  else if nanWords.contains s then some .nan
  else Binary64.read? s

def based? (cs : List Char) : Option Int :=
  match cs with
  | '0' :: 'x' :: r => inBase? 16 r
  | '0' :: 'o' :: r => inBase? 8 r
  | _ => none

def plain (s : String) : SettingValue :=
  match based? s.toList with
  | some n => .whole n
  | none =>
    if s = "" ∨ s = "~" ∨ s = "null" then .absent
    else if s = "true" then .flag true
    else if s = "false" then .flag false
    else match readSigned? maxI64 s with
      | some n => .whole n
      | none =>
        match number? s with
        | some x => .number x
        | none => .text s

def simpleEscape? (c : Char) : Option Char :=
  if c = '"' ∨ c = '\\' ∨ c = '/' ∨ c = ' ' then some c
  else if c = 'n' then some '\n'
  else if c = 't' then some '\t'
  else if c = 'r' then some '\r'
  else if c = 'b' then some '\x08'
  else if c = 'f' then some '\x0c'
  else if c = '0' then some '\x00'
  else none

def readDouble : List Char → Option (List Char × List Char)
  | [] => none
  | '\\' :: c :: r =>
    match simpleEscape? c with
    | some e => (readDouble r).map fun p => (e :: p.1, p.2)
    | none => none
  | c :: r =>
    if c = '"' then some ([], r)
    else if c = '\\' then none
    else (readDouble r).map fun p => (c :: p.1, p.2)

def readSingle : List Char → Option (List Char × List Char)
  | [] => none
  | '\'' :: '\'' :: r => (readSingle r).map fun p => ('\'' :: p.1, p.2)
  | c :: r =>
    if c = '\'' then some ([], r) else (readSingle r).map fun p => (c :: p.1, p.2)

def beforeComment : Bool → List Char → List Char
  | _, [] => []
  | afterSpace, c :: r =>
    if afterSpace ∧ c = '#' then [] else c :: beforeComment (isSpace c) r

def isIndicator (c : Char) : Bool := "[]\x7b\x7d,&*!|>%@\x60".toList.contains c

def holdsColon : List Char → Bool
  | [] => false
  | [c] => c = ':'
  | c :: d :: r => (c = ':' && isSpace d) || holdsColon (d :: r)

def readScalar? (cs : List Char) : Option SettingValue :=
  match skipSpace cs with
  | '"' :: r =>
    match readDouble r with
    | some (s, rest) => if isRest rest then some (.text (String.ofList s)) else none
    | none => none
  | '\'' :: r =>
    match readSingle r with
    | some (s, rest) => if isRest rest then some (.text (String.ofList s)) else none
    | none => none
  | r =>
    let word := trimSpace (beforeComment true r)
    if (word.head?.map isIndicator).getD false ∨ holdsColon word ∨ word = ['-']
      ∨ ['-', ' '].isPrefixOf word then none
    else some (plain (String.ofList word))

structure Line where
  indent : Nat
  key : String
  value : List Char

def splitKey? : List Char → Option (List Char × List Char)
  | [] => none
  | [c] => if c = ':' then some ([], []) else none
  | c :: d :: r =>
    if c = ':' ∧ isSpace d then some ([], d :: r)
    else (splitKey? (d :: r)).map fun p => (c :: p.1, p.2)

def readKey? (cs : List Char) : Option (String × List Char) :=
  let afterQuoted := fun (p : List Char × List Char) => match skipSpace p.2 with
    | ':' :: r => some (String.ofList p.1, r)
    | _ => none
  match cs with
  | '"' :: r => (readDouble r).bind afterQuoted
  | '\'' :: r => (readSingle r).bind afterQuoted
  | c :: _ =>
    if isIndicator c then none
    else (splitKey? cs).map fun p => (String.ofList (trimSpace p.1), p.2)
  | [] => none

/-- A line with a key; `some none` for one without content. -/
def readLine? (cs : List Char) : Option (Option Line) :=
  let indent := (cs.takeWhile (· = ' ')).length
  let content := cs.drop indent
  if isRest content ∨ (indent = 0 ∧ trimSpace content = "---".toList) then some none
  else if content.head? = some '\t' then none
  else (readKey? content).map fun p => some ⟨indent, p.1, p.2⟩

structure Document where
  entries : Table SettingValue
  /-- The key that indented lines belong to, and how far they are indented once that is known. -/
  current : Option (String × Option Nat)

namespace Document

def addTop? (d : Document) (l : Line) : Option Document :=
  if isRest l.value then
    some ⟨d.entries.insert l.key .absent, some (l.key, none)⟩
  else (readScalar? l.value).map fun v => ⟨d.entries.insert l.key v, none⟩

def addInner? (d : Document) (name : String) (l : Line) : Option Document :=
  (readScalar? l.value).map fun v =>
    let table := SettingValue.entriesOf ((d.entries.get? name).getD .absent)
    ⟨d.entries.insert name (.table (Table.insert table l.key v)), some (name, some l.indent)⟩

def add? (d : Document) (l : Line) : Option Document :=
  if l.indent = 0 then d.addTop? l
  else match d.current with
    | some (name, none) => d.addInner? name l
    | some (name, some indent) => if l.indent = indent then d.addInner? name l else none
    | none => none

end Document

def read? (s : String) : Option (Table SettingValue) := do
  let content := (← (lines s).mapM readLine?).filterMap id
  let document ← content.foldlM Document.add? ⟨[], none⟩
  pure document.entries

end Yaml
end NodeFleet
