import NodeFleet.Container.Basic
import NodeFleet.Json.Record

set_option autoImplicit false
namespace NodeFleet
namespace Daemon

def object? (names : List String) : Json → Option (List (Option Json))
  | .object fields => Json.namedFields? names fields
  | _ => none

def orEmpty {α : Type} (empty : α) (item : Json → Option α) (v : Option Json) : Option α :=
  (Json.optional? item v).map (·.getD empty)

def text? : Option Json → Option String := orEmpty "" Json.asText?

def texts? : Option Json → Option (List String) := orEmpty [] Json.asTexts?

def presentTexts? : Option Json → Option (List String)
  | none => none
  | some v => texts? (some v)

def summary? (v : Json) : Option Summary := do
  match ← object? ["Id", "Names", "Image", "State"] v with
  | [id, names, image, state] =>
    pure ⟨← text? id, ← texts? names, ← text? image, ← text? state⟩
  | _ => none

def mount? (v : Json) : Option Mount := do
  match ← object? ["Source", "Destination"] v with
  | [source, destination] => pure ⟨← text? source, ← text? destination⟩
  | _ => none

def nested? {α : Type} (name : String) (empty : α) (item : Option Json → Option α) :
    Option Json → Option α :=
  orEmpty empty fun v => do
    match ← object? [name] v with
    | [x] => item x
    | _ => none

def address? (v : Json) : Option String := do
  match ← object? ["IPAddress"] v with
  | [ip] => text? ip
  | _ => none

/-- Networks in order of their names. -/
def networks? (v : Option Json) : Option (List AttachedNetwork) :=
  (orEmpty [] (Json.asTable? address?) v).map fun t => t.map fun e => ⟨e.1, e.2⟩

def networkSettings? : Option Json → Option (String × List AttachedNetwork) :=
  orEmpty ("", []) fun v => do
    match ← object? ["IPAddress", "Networks"] v with
    | [ip, networks] => pure (← text? ip, ← networks? networks)
    | _ => none

def detail? (v : Json) : Option Detail := do
  match ← object? ["Id", "Name", "Config", "Mounts", "HostConfig", "NetworkSettings"] v with
  | [id, name, config, mounts, host, network] =>
    let (ip, networks) ← networkSettings? network
    pure {
      id := ← text? id
      name := ← text? name
      env := ← nested? "Env" [] texts? config
      mounts := ← orEmpty [] (Json.asList? mount?) mounts
      extraHosts := ← nested? "ExtraHosts" [] texts? host
      ipAddress := ip
      networks := networks }
  | _ => none

def untagged : String := "<none>:<none>"

def imageFieldNames : List String :=
  ["Id", "ParentId", "RepoTags", "RepoDigests", "Labels", "Created", "Size", "SharedSize",
    "Containers"]

def image? (v : Json) : Option Image := do
  match ← object? imageFieldNames v with
  | [some id, some parent, tags, digests, some labels, some created, some size, some shared,
      some containers] =>
    let id ← id.asText?
    let _ ← parent.asText?
    let tags ← presentTexts? tags
    let _ ← presentTexts? digests
    let _ ← orEmpty [] (Json.asTable? Json.asText?) (some labels)
    let created ← created.asSigned?
    let _ ← size.asSigned?
    let _ ← shared.asSigned?
    let _ ← containers.asSigned?
    pure ⟨id, tags.filter (· ≠ untagged), created⟩
  | _ => none

def creation? (v : Json) : Option (String × List String) := do
  match ← Json.record? ["Id", "Warnings"] v with
  | [some id, warnings] => pure (← id.asText?, ← presentTexts? warnings)
  | _ => none

def execId? (v : Json) : Option String := do
  match ← Json.record? ["Id"] v with
  | [some id] => id.asText?
  | _ => none

def hostInfo? (v : Json) : Option HostInfo := do
  match ← object? ["Name"] v with
  | [name] => pure ⟨← text? name⟩
  | _ => none

end Daemon
end NodeFleet
