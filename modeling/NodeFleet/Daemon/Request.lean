import NodeFleet.Container.Basic
import NodeFleet.Json.Record
import NodeFleet.Time.Span

set_option autoImplicit false
namespace NodeFleet

inductive Method
  | get
  | post
  | delete
deriving DecidableEq, Repr

def Method.name : Method → String
  | .get => "GET"
  | .post => "POST"
  | .delete => "DELETE"

inductive Parameter
  | text (s : String)
  /-- Conditions by name, each with the values that meet it. -/
  | filters (conditions : List (String × List String))
deriving DecidableEq, Repr

structure Request where
  method : Method
  path : String
  query : List (String × Parameter)
  body : Option Json

namespace Request

def flag (b : Bool) : Parameter := .text (if b then "true" else "false")

def isPlainByte (b : UInt8) : Bool :=
  0x21 ≤ b && b ≤ 0x7e && !(" \"#<>?\x60\x7b\x7d".toUTF8.toList.contains b)

def percent (b : UInt8) : String :=
  let digits := (Nat.toDigits 16 b.toNat).map Char.toUpper
  String.ofList ('%' :: (if digits.length < 2 then '0' :: digits else digits))

def pathText (s : String) : String :=
  String.join (s.toUTF8.toList.map fun b =>
    if isPlainByte b then String.singleton (Char.ofNat b.toNat) else percent b)

def containerPath (id rest : String) : String := "/containers/" ++ pathText id ++ rest

def listContainers (includeStopped : Bool) : Request where
  method := .get
  path := "/containers/json"
  query := [("all", flag includeStopped), ("filters", .filters []), ("size", flag false)]
  body := none

def inspect (id : String) : Request := ⟨.get, containerPath id "/json", [], none⟩

def portBindingJson (b : PortBinding) : Json :=
  .list [.object [("HostIp", .text b.hostIp), ("HostPort", .text b.hostPort)]]

def hostConfig (spec : Spec) : Json :=
  .object [("Binds", Json.ofTexts spec.binds),
    ("PortBindings", .object (spec.portBindings.map fun p => (p.1, portBindingJson p.2))),
    ("NetworkMode", .text spec.networkMode), ("ExtraHosts", Json.ofTexts spec.extraHosts),
    ("AutoRemove", .bool spec.autoRemove), ("Privileged", .bool spec.privileged)]

/-- Exposed ports are a set: neither their order nor a repetition shows. -/
def exposedPorts (ports : List String) : Json :=
  .object (Table.ofList (ports.map fun p => (p, Json.object [])))

def creationBody (spec : Spec) : Json :=
  .object [("Image", .text spec.image), ("Env", Json.ofTexts spec.env),
    ("ExposedPorts", exposedPorts spec.exposedPorts), ("HostConfig", hostConfig spec)]

def create (spec : Spec) : Request :=
  ⟨.post, "/containers/create", [("name", .text spec.name)], some (creationBody spec)⟩

def start (id : String) : Request := ⟨.post, containerPath id "/start", [], none⟩

def signedSeconds (grace : Span) : Int :=
  if grace.secs ≤ maxI64 then grace.secs else (grace.secs : Int) - (maxU64 + 1 : Nat)

def stop (id : String) (grace : Span) : Request :=
  ⟨.post, containerPath id "/stop", [("t", .text (toString (signedSeconds grace)))], none⟩

def remove (id : String) : Request where
  method := .delete
  path := containerPath id ""
  query := [("force", flag true), ("link", flag false), ("v", flag false)]
  body := none

def execBody (command : List String) : Json :=
  .object [("AttachStdin", .null), ("AttachStdout", .bool true), ("AttachStderr", .bool true),
    ("Tty", .null), ("DetachKeys", .null), ("Env", .null), ("Cmd", Json.ofTexts command),
    ("Privileged", .null), ("User", .null), ("WorkingDir", .null)]

def execCreate (id : String) (command : List String) : Request :=
  ⟨.post, containerPath id "/exec", [], some (execBody command)⟩

def execStart (execId : String) (wait : Bool) : Request where
  method := .post
  path := "/exec/" ++ pathText execId ++ "/start"
  query := []
  body := some (.object [("Detach", .bool (!wait)), ("OutputCapacity", .null)])

def archive (id path : String) : Request :=
  ⟨.get, containerPath id "/archive", [("path", .text path)], none⟩

def listImages (name : String) : Request where
  method := .get
  path := "/images/json"
  query := [("all", flag false), ("digests", flag false),
    ("filters", .filters [("reference", [name])])]
  body := none

def info : Request := ⟨.get, "/info", [], none⟩

end Request
end NodeFleet
