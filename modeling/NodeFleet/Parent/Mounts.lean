import NodeFleet.Container.Basic
import NodeFleet.Container.Fault
import NodeFleet.Json.Record
import NodeFleet.Text.Ascii

set_option autoImplicit false
namespace NodeFleet

structure MountBinding where
  hostSource : String
  containerDestination : String
deriving DecidableEq, Repr, Inhabited

namespace MountBinding

def render (b : MountBinding) : String := b.hostSource ++ ":" ++ b.containerDestination

def nodeRoot : String := "/tmp/node"

def protectedPaths : List String := ["/var/run/docker.sock", "/home/seluser/videos", "/dev/shm"]

def isProtected (path : String) : Bool := protectedPaths.any fun p => sameIgnoringCase p path

def belowNodeRoot? (destination : String) : Option String :=
  if nodeRoot.toList.isPrefixOf destination.toList then
    match destination.toList.drop nodeRoot.toList.length with
    | [] => some ""
    | '/' :: r => some (String.ofList ('/' :: r))
    | _ => none
  else none

def rootRefused : ConfigurationError :=
  ⟨nodeRoot ++ " itself may not be mounted via node mounting"⟩

def pathRefused : ConfigurationError :=
  ⟨"The following points may not be mounted via node mounting: " ++
    String.intercalate "," protectedPaths⟩

def ofMount (m : Mount) : Except ConfigurationError (Option MountBinding) :=
  match belowNodeRoot? m.destination with
  | none => .ok none
  | some path =>
    if path = "" then .error rootRefused
    else if isProtected path then .error pathRefused
    else .ok (some ⟨m.source, path⟩)

/-- All bindings in the order of the mounts, or the refusal of the first that is refused. -/
def ofMounts : List Mount → Except ConfigurationError (List MountBinding)
  | [] => .ok []
  | m :: r =>
    match ofMount m with
    | .error e => .error e
    | .ok none => ofMounts r
    | .ok (some b) =>
      match ofMounts r with
      | .error e => .error e
      | .ok bs => .ok (b :: bs)

def fieldNames : List String := ["host_source", "container_destination"]

def ofJson? (v : Json) : Option MountBinding :=
  match v.record? fieldNames with
  | some [some source, some destination] => do pure ⟨← source.asText?, ← destination.asText?⟩
  | _ => none

def toJson (b : MountBinding) : Json :=
  .object [("host_source", .text b.hostSource),
    ("container_destination", .text b.containerDestination)]

end MountBinding
end NodeFleet
