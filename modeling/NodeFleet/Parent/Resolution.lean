import NodeFleet.Container.Lookup
import NodeFleet.World

set_option autoImplicit false
namespace NodeFleet
namespace Action
variable {σ : Type} (engine : Engine σ)

def containerId (name : String) : Action σ (Option String) := do
  match ← call engine (.listContainers true) with
  | .ok listing => pure (idByName? listing name)
  | .error f =>
    note (.lookupFailed f)
    pure none

def inspectParent (parent : String) : Action σ (Option Detail) := do
  match ← containerId engine parent with
  | none =>
    note (.parentNotFound parent)
    pure none
  | some id =>
    match ← call engine (.inspect id) with
    | .ok detail => pure (some detail)
    | .error f =>
      note (.parentInspectionFailed parent f)
      pure none

def hostName : Action σ (Option String) := do
  match ← call engine .info with
  | .ok info => pure (some info.name)
  | .error f =>
    note (.hostNameFailed f)
    pure none

/-- The host's name matters in host mode only. -/
def findNetwork (parent : String) : Action σ NodeNetwork := do
  let detail ← inspectParent engine parent
  let mode := NodeNetwork.modeOf ((detail.map (·.networks)).getD [])
  let host ← if NodeNetwork.isHostMode mode then hostName engine else pure none
  let hosts := NodeNetwork.extraHostsFor mode host ((detail.map (·.extraHosts)).getD [])
  note (.networkResolved mode hosts)
  pure ⟨mode, hosts⟩

def findMounts (parent : String) : Action σ (Except ConfigurationError (List MountBinding)) := do
  let detail ← inspectParent engine parent
  let bindings := MountBinding.ofMounts ((detail.map (·.mounts)).getD [])
  match bindings with
  | .ok bs => note (.mountsResolved bs.length)
  | .error e => note (.mountsRejected e)
  pure bindings

def findProxy (parent : String) : Action σ ProxyVariables := do
  let detail ← inspectParent engine parent
  pure (ProxyVariables.ofParent ((detail.map (·.env)).getD []))

def network (parent : String) : Action σ NodeNetwork := do
  match ← known (·.network) with
  | some n => pure n
  | none =>
    let n ← findNetwork engine parent
    learn fun v => { v with network := some n }
    pure n

def mountBindings (parent : String) :
    Action σ (Except ConfigurationError (List MountBinding)) := do
  match ← known (·.mounts) with
  | some m => pure m
  | none =>
    let m ← findMounts engine parent
    learn fun v => { v with mounts := some m }
    pure m

def proxyVariables (parent : String) : Action σ ProxyVariables := do
  match ← known (·.proxy) with
  | some p => pure p
  | none =>
    let p ← findProxy engine parent
    learn fun v => { v with proxy := some p }
    pure p

end Action
end NodeFleet
