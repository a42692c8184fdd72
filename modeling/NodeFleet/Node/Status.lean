import NodeFleet.Json.Record
import NodeFleet.Net.Port

set_option autoImplicit false
namespace NodeFleet

structure CreationStatus where
  success : Bool
  containerName : String
  mappedPort : Option String
deriving DecidableEq, Repr, Inhabited

namespace CreationStatus

def created (name port : String) : CreationStatus := ⟨true, name, some port⟩

def failed (name : String) : CreationStatus := ⟨false, name, none⟩

def fieldNames : List String := ["success", "container_name", "mapped_port"]

def ofJson? (v : Json) : Option CreationStatus :=
  match v.record? fieldNames with
  | some [some success, some name, port] => do
    pure ⟨← success.asBool?, ← name.asText?, ← Json.optional? Json.asText? port⟩
  | _ => none

def toJson (s : CreationStatus) : Json :=
  .object [("success", .bool s.success), ("container_name", .text s.containerName),
    ("mapped_port", .ofOption s.mappedPort)]

end CreationStatus

structure Registration where
  containerId : Option String
  secondaryPort : Option Port
deriving DecidableEq

namespace Registration

def unknown : Registration := ⟨none, none⟩

def fieldNames : List String := ["container_id", "secondary_port"]

def portOfJson? (v : Json) : Option Port := (v.asUnsigned? maxU16).bind Port.ofNat?

def ofJson? (v : Json) : Option Registration :=
  match v.record? fieldNames with
  | some [id, port] => do
    pure ⟨← Json.optional? Json.asText? id, ← Json.optional? portOfJson? port⟩
  | _ => none

def portToJson : Option Port → Json
  | none => .null
  | some p => .natural p.number

def toJson (r : Registration) : Json :=
  .object [("container_id", .ofOption r.containerId), ("secondary_port", portToJson r.secondaryPort)]

end Registration
end NodeFleet
