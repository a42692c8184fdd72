import NodeFleet.Number.Binary64
import NodeFleet.Table

set_option autoImplicit false
namespace NodeFleet

inductive Json
  | null
  | bool (b : Bool)
  | integer (n : Int)
  | float (x : Binary64)
  | text (s : String)
  | list (items : List Json)
  | object (fields : List (String × Json))
deriving Repr, BEq, Inhabited

namespace Json

mutual
/-- Fields sorted by name, of equal names the last. -/
def normal : Json → Json
  | .list items => .list (normalItems items)
  | .object fields => .object (Table.ofList (normalFields fields))
  | v => v
def normalItems : List Json → List Json
  | [] => []
  | v :: r => v.normal :: normalItems r
def normalFields : List (String × Json) → List (String × Json)
  | [] => []
  | (k, v) :: r => (k, v.normal) :: normalFields r
end

def field? (v : Json) (name : String) : Option Json :=
  match v with
  | .object fields => (fields.reverse.find? (·.1 = name)).map (·.2)
  | _ => none

def ofTexts (xs : List String) : Json := .list (xs.map .text)

def ofOption : Option String → Json
  | none => .null
  | some s => .text s

def natural (n : Nat) : Json := .integer n

end Json
end NodeFleet
