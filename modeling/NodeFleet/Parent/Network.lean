import NodeFleet.Container.Basic
import NodeFleet.Json.Record
import NodeFleet.Text.Ascii

set_option autoImplicit false
namespace NodeFleet

structure NodeNetwork where
  mode : String
  extraHosts : List String
deriving DecidableEq, Repr, Inhabited

namespace NodeNetwork

def defaultMode : String := "default"

def bridgeName : String := "bridge"

def hostMode : String := "host"

def isHostMode (mode : String) : Bool := sameIgnoringCase mode hostMode

def modeOf (networks : List AttachedNetwork) : String :=
  match networks.find? fun n => !sameIgnoringCase n.name bridgeName with
  | some n => n.name
  | none => defaultMode

def macHost : String := "mac.host.local:192.168.65.1"

/-- In host mode the host's own name leads to this address. -/
def hostLoopback : String := "127.0.1.0"

def hostEntries (mode : String) : Option String → List String
  | some name => if isHostMode mode && name ≠ "" then [name ++ ":" ++ hostLoopback] else []
  | none => []

def extraHostsFor (mode : String) (hostName : Option String) (parentHosts : List String) :
    List String :=
  macHost :: hostEntries mode hostName ++ parentHosts

def fieldNames : List String := ["mode", "extra_hosts"]

def ofJson? (v : Json) : Option NodeNetwork :=
  match v.record? fieldNames with
  | some [some mode, some hosts] => do pure ⟨← mode.asText?, ← hosts.asTexts?⟩
  | _ => none

def toJson (n : NodeNetwork) : Json :=
  .object [("mode", .text n.mode), ("extra_hosts", Json.ofTexts n.extraHosts)]

end NodeNetwork
end NodeFleet
