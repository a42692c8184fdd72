import NodeFleet.Node.Name
import NodeFleet.Node.Status
import NodeFleet.Parent.Resolution
/-!
Creating a node container. A failure of the engine is an outcome, not an error: the only error is a
parent that must not host nodes. Whatever happens, one counter tells how it ended.
-/

set_option autoImplicit false
namespace NodeFleet

namespace NodeSpec

def previewVariable : String := "NOVNC_PORT"

def sharedMemoryBind : String := "/dev/shm:/dev/shm"

/-- In host mode nodes share one set of ports, so each picks free ones. -/
def hostModeVariables : List (String × String) :=
  [("SELENIUM_HUB_HOST", "localhost"), ("SELENIUM_NODE_HOST", "localhost"),
    ("PICK_ALL_RANDOM_PORTS", "true")]

def requestedPreview? (env : Table String) : Option Port :=
  (env.get? previewVariable).bind Port.ofText?

def previewFor? (env : Table String) (port : Port) : Option Port :=
  match requestedPreview? env with
  | some p => some p
  | none => port.preview?

def withPreview (env : Table String) (preview : Port) : Table String :=
  match requestedPreview? env with
  | some _ => env
  | none => env.insert previewVariable preview.text

def withMode (env : Table String) (mode : String) : Table String :=
  if NodeNetwork.isHostMode mode then
    hostModeVariables.foldl (fun t e => t.insert e.1 e.2) env
  else env

def envEntries (env : Table String) (proxy : ProxyVariables) : List String :=
  env.map (fun e => e.1 ++ "=" ++ e.2) ++ proxy.entries

def tcp (p : Port) : String := p.text ++ "/tcp"

def portBindings (port preview : Port) : Table PortBinding :=
  Table.ofList ([port, preview].map fun p => (tcp p, ⟨"", p.text⟩))

def build (name image : String) (env : Table String) (port preview : Port)
    (mounts : List MountBinding) (network : NodeNetwork) (proxy : ProxyVariables) : Spec where
  name := name
  image := image
  env := envEntries env proxy
  exposedPorts := (portBindings port preview).keys
  binds := mounts.map MountBinding.render ++ [sharedMemoryBind]
  portBindings := portBindings port preview
  networkMode := network.mode
  extraHosts := network.extraHosts
  autoRemove := true
  privileged := true

end NodeSpec

structure Creation where
  outcome : Except ConfigurationError CreationStatus
  env : Table String

namespace Action
variable {σ : Type} (engine : Engine σ)

def failCreation (image : String) (env : Table String)
    (outcome : Except ConfigurationError CreationStatus) : Action σ Creation := do
  count (.failed image)
  pure ⟨outcome, env⟩

/-- Starts a container that was just created; one that does not start is removed. -/
def launch (spec : Spec) (port : String) (preview : Port) (env : Table String) (id : String) :
    Action σ Creation := do
  match ← call engine (.start id) with
  | .ok () =>
    note (.nodeStarted id spec.name preview.number)
    count (.created spec.image)
    pure ⟨.ok (.created spec.name port), env⟩
  | .error f =>
    note (.startFailed spec.name f)
    match ← call engine (.remove id) with
    | .ok () => pure ()
    | .error g => note (.removalFailed g)
    failCreation spec.image env (.ok (.failed spec.name))

def submit (spec : Spec) (port : String) (preview : Port) (env : Table String) :
    Action σ Creation := do
  note (.creating spec.name)
  match ← call engine (.create spec) with
  | .ok id => launch engine spec port preview env id
  | .error f =>
    note (.creationFailed spec.name f)
    failCreation spec.image env (.ok (.failed spec.name))

def createOn (parent image : String) (env : Table String) (portText : String)
    (port preview : Port) : Action σ Creation := do
  match ← mountBindings engine parent with
  | .error e => failCreation image env (.error e)
  | .ok mounts =>
    let network ← network engine parent
    let env := NodeSpec.withMode (NodeSpec.withPreview env preview) network.mode
    let proxy ← proxyVariables engine parent
    submit engine
      (NodeSpec.build (nodeName parent portText) image env port preview mounts network proxy)
      portText preview env

def createContainer (parent image : String) (env : Table String) (portText : String) :
    Action σ Creation := do
  let refused : Except ConfigurationError CreationStatus :=
    .ok (.failed (nodeName parent portText))
  match Port.ofText? portText with
  | none =>
    note (.invalidPort portText)
    failCreation image env refused
  | some port =>
    match NodeSpec.previewFor? env port with
    | none =>
      note (.noPreviewPort port.number)
      failCreation image env refused
    | some preview => createOn engine parent image env portText port preview

end Action
end NodeFleet
