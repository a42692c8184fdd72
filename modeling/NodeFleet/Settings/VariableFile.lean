import NodeFleet.Table
import NodeFleet.Text.Blank
/-!
A file of variables: lines `NAME=value`, optionally behind `export`, with quotes, escapes, comments
and references to other variables. Reading stops at the first malformed line and keeps what came
before; a variable that is already set stays as it is.
-/

set_option autoImplicit false
namespace NodeFleet
namespace VariableFile

/-! ### Lines: a quoted line end does not end a line -/

inductive Place
  | plain
  | afterSpace
  | escaped
  | single
  | singleEscaped
  | double
  | doubleEscaped
  | comment
deriving DecidableEq, Repr

namespace Place

def opened (c : Char) : Place :=
  if c = '\\' then .escaped else if c = '"' then .double else if c = '\'' then .single else .plain

def next (p : Place) (c : Char) : Place :=
  match p with
  | .plain =>
    if isBlankChar c ∧ c ≠ '\n' ∧ c ≠ '\r' then .afterSpace
    else opened c
  | .afterSpace => if c = '#' then .comment else opened c
  | .escaped => .plain
  | .single => if c = '\\' then .singleEscaped else if c = '\'' then .plain else .single
  | .singleEscaped => .single
  | .double => if c = '\\' then .doubleEscaped else if c = '"' then .plain else .double
  | .doubleEscaped => .double
  | .comment => .comment

end Place

def rawLine (cs : List Char) : List Char × List Char :=
  match cs.dropWhile (· ≠ '\n') with
  | [] => (cs, [])
  | _ :: r => (cs.takeWhile (· ≠ '\n') ++ ['\n'], r)

theorem rawLine_snd_lt {cs : List Char} (h : cs ≠ []) : (rawLine cs).2.length < cs.length := by
  unfold rawLine
  split
  · simpa using List.length_pos_iff.mpr h
  · rename_i c r hr
    have hl := (List.dropWhile_sublist (· ≠ '\n') (l := cs)).length_le
    rw [hr] at hl
    exact hl

/-- The place after a raw line, and what of it stands before a comment. -/
def follow (p : Place) : List Char → Place × List Char
  | [] => (p, [])
  | c :: r =>
    match p.next c with
    | .comment => (.comment, [])
    | q => ((follow q r).1, c :: (follow q r).2)

def dropLineEnd (cs : List Char) : List Char :=
  match cs.reverse with
  | '\n' :: '\r' :: r => r.reverse
  | '\n' :: r => r.reverse
  | _ => cs

def nextLine (before : List Char) (p : Place) (cs : List Char) :
    Option (List Char) × List Char :=
  if _h : cs = [] then (none, [])
  else
    let raw := (rawLine cs).1
    if (trimStart (before ++ raw)).head? = some '#' then (some [], (rawLine cs).2)
    else
      match follow p raw with
      | (.plain, _) => (some (dropLineEnd (before ++ raw)), (rawLine cs).2)
      | (.comment, kept) => (some (before ++ kept), (rawLine cs).2)
      | (q, _) => nextLine (before ++ raw) q (rawLine cs).2
termination_by cs.length
decreasing_by exact rawLine_snd_lt _h

theorem nextLine_snd_lt (before : List Char) (p : Place) {cs : List Char} (h : cs ≠ []) :
    (nextLine before p cs).2.length < cs.length := by
  induction hn : cs.length using Nat.strongRecOn generalizing before p cs with
  | ind n ih =>
    subst hn
    have hlt := rawLine_snd_lt h
    rw [nextLine]
    simp only [h, dite_false]
    split
    · exact hlt
    · split
      · exact hlt
      · exact hlt
      · by_cases he : (rawLine cs).2 = []
        · rw [nextLine]
          simp only [he, dite_true, List.length_nil]
          exact List.length_pos_iff.mpr h
        · exact Nat.lt_trans (ih _ hlt _ _ he rfl) hlt

/-! ### Values -/

/-- What a character of a value means: text that stands for itself, or the name of a reference. -/
inductive Mode
  | text
  | single
  | double
  | escaped (double : Bool)
  /-- A reference without braces, with its name so far, reversed. -/
  | bare (double : Bool) (name : List Char)
  | braced (double : Bool) (name : List Char)
  /-- After an unquoted blank only a comment may follow. -/
  | ended
deriving DecidableEq, Repr

def escapeOf? (c : Char) : Option Char :=
  if c = '\\' ∨ c = '\'' ∨ c = '"' ∨ c = '$' ∨ c = ' ' then some c
  else if c = 'n' then some '\n'
  else none

def resting (double : Bool) : Mode := if double then .double else .text

def lookUp (known : Table String) (reversedName : List Char) : List Char :=
  ((known.get? (String.ofList reversedName.reverse)).getD "").toList

def readValue? (known : Table String) (out : List Char) :
    Mode → List Char → Option (List Char)
  | .text, [] | .ended, [] => some out.reverse
  | .escaped false, [] => some out.reverse
  | .bare false name, [] => some (out.reverse ++ lookUp known name)
  | _, [] => none
  | .ended, c :: r =>
    if c = ' ' ∨ c = '\t' then readValue? known out .ended r
    else if c = '#' then some out.reverse
    else none
  | .escaped double, c :: r =>
    match escapeOf? c with
    | some e => readValue? known (e :: out) (resting double) r
    | none => none
  | .single, c :: r =>
    if c = '\'' then readValue? known out .text r
    else readValue? known (c :: out) .single r
  | .bare double name, c :: r =>
    if c.isAlphanum then readValue? known out (.bare double (c :: name)) r
    else if c = '\x7b' ∧ name = [] then readValue? known out (.braced double []) r
    else
      let out := (lookUp known name).reverse ++ out
      if c = '$' then readValue? known out (.bare double []) r
      else readValue? known (c :: out) (resting double) r
  | .braced double name, c :: r =>
    if c.isAlphanum then readValue? known out (.braced double (c :: name)) r
    else if c = '\x7d' then
      readValue? known ((lookUp known name).reverse ++ out) (resting double) r
    else readValue? known out (.braced double (c :: name)) r
  | .double, c :: r =>
    if c = '$' then readValue? known out (.bare true []) r
    else if c = '"' then readValue? known out .text r
    else if c = '\\' then readValue? known out (.escaped true) r
    else readValue? known (c :: out) .double r
  | .text, c :: r =>
    if c = '$' then readValue? known out (.bare false []) r
    else if c = '\'' then readValue? known out .single r
    else if c = '"' then readValue? known out .double r
    else if c = '\\' then readValue? known out (.escaped false) r
    else if c = ' ' ∨ c = '\t' then readValue? known out .ended r
    else readValue? known (c :: out) .text r

/-! ### Definitions -/

def isNameStart (c : Char) : Bool := c.isAlpha || c = '_'

def isNameChar (c : Char) : Bool := c.isAlphanum || c = '_' || c = '.'

def readName? : List Char → Option (List Char × List Char)
  | [] => none
  | c :: r => if isNameStart c then some ((c :: r).takeWhile isNameChar, (c :: r).dropWhile isNameChar)
    else none

def readAssignment? (cs : List Char) : Option (List Char × List Char) := do
  let (name, r) ← readName? cs
  match trimStart r with
  | '=' :: r => pure (name, r)
  | r =>
    if name = "export".toList then
      let (name, r) ← readName? r
      match trimStart r with
      | '=' :: r => pure (name, r)
      | _ => none
    else none

def readLine? (known : Table String) (line : List Char) :
    Option (Option (String × String)) :=
  match trimStart (trimEnd line) with
  | [] => some none
  | '#' :: _ => some none
  | cs => do
    let (name, r) ← readAssignment? cs
    match trimStart r with
    | [] => pure (some (String.ofList name, ""))
    | '#' :: _ => pure (some (String.ofList name, ""))
    | r =>
      let value ← readValue? known [] .text r
      pure (some (String.ofList name, String.ofList value))

def define (known : Table String) (name value : String) : Table String :=
  match known.get? name with
  | some _ => known
  | none => known.insert name value

def extend (known : Table String) (cs : List Char) : Table String :=
  if _h : cs = [] then known
  else
    match (nextLine [] .plain cs).1 with
    | none => known
    | some line =>
      match readLine? known line with
      | none => known
      | some none => extend known (nextLine [] .plain cs).2
      | some (some (name, value)) =>
        extend (define known name value) (nextLine [] .plain cs).2
termination_by cs.length
decreasing_by all_goals exact nextLine_snd_lt _ _ _h

/-- All variables after reading the file; a mark of the byte order at its start does not count. -/
def load (known : Table String) (file : String) : Table String :=
  match file.toList with
  | '\ufeff' :: r => extend known r
  | cs => extend known cs

end VariableFile
end NodeFleet
