import NodeFleet.Container.Fault
import NodeFleet.Json.Reader
import NodeFleet.Text.Utf8

set_option autoImplicit false
namespace NodeFleet
namespace Refusal

inductive Reading (α : Type)
  | found (value : α)
  /-- JSON of another shape. -/
  | otherShape
  | malformed

namespace Reading
variable {α β : Type}

def map (f : α → β) : Reading α → Reading β
  | .found a => .found (f a)
  | .otherShape => .otherShape
  | .malformed => .malformed

end Reading

def readString (cs : List Char) : Reading (String × List Char) :=
  match Json.skipSpace cs with
  | '"' :: r =>
    match Json.readText 0 r with
    | some (s, rest) => .found (String.ofList s, rest)
    | none => .malformed
  | '[' :: _ => .otherShape
  | '\x7b' :: _ => .otherShape
  | r => if (Json.readFront r).isSome then .otherShape else .malformed

def readFields : Nat → Option String → List Char → Reading (Option String × List Char)
  | 0, _, _ => .malformed
  | fuel + 1, message, cs =>
    match Json.skipSpace cs with
    | '"' :: r =>
      match Json.readText 0 r with
      | none => .malformed
      | some (name, r) =>
        if name = "message".toList ∧ message.isSome then .otherShape
        else match Json.skipSpace r with
          | ':' :: r =>
            let value : Reading (Option String × List Char) :=
              if name = "message".toList then (readString r).map fun p => (some p.1, p.2)
              else match Json.readFront r with
                | some (_, rest) => .found (message, rest)
                | none => .malformed
            match value with
            | .found (message, r) =>
              match Json.skipSpace r with
              | ',' :: r => readFields fuel message r
              | '\x7d' :: r => .found (message, r)
              | _ => .malformed
            | .otherShape => .otherShape
            | .malformed => .malformed
          | _ => .malformed
    | _ => .malformed

def readRecord (cs : List Char) : Reading (String × List Char) :=
  let fields : Reading (Option String × List Char) := match Json.skipSpace cs with
    | '\x7d' :: r => .found (none, r)
    | r => readFields (r.length + 1) none r
  match fields with
  | .found (some message, r) => .found (message, r)
  | .found (none, _) => .otherShape
  | .otherShape => .otherShape
  | .malformed => .malformed

/-- A list stands for a record when it holds exactly one text. -/
def readList (cs : List Char) : Reading (String × List Char) :=
  match Json.skipSpace cs with
  | ']' :: _ => .otherShape
  | r =>
    match readString r with
    | .found (message, r) =>
      match Json.skipSpace r with
      | ']' :: r => .found (message, r)
      | _ => .malformed
    | other => other

def readMessage (cs : List Char) : Reading (String × List Char) :=
  match Json.skipSpace cs with
  | '\x7b' :: r => readRecord r
  | '[' :: r => readList r
  | '"' :: r => if (Json.readText 0 r).isSome then .otherShape else .malformed
  | r => if (Json.readFront r).isSome then .otherShape else .malformed

def message? (body : List Char) : Option String :=
  if body.isEmpty then some ""
  else match readMessage body with
    | .found (message, rest) => if (Json.skipSpace rest).isEmpty then some message else none
    | .otherShape => some (String.ofList body)
    | .malformed => none

end Refusal
end NodeFleet
