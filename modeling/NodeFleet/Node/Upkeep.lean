import NodeFleet.Net.Url
import NodeFleet.Node.Name
import NodeFleet.Node.Status
import NodeFleet.Parent.Resolution

set_option autoImplicit false
namespace NodeFleet
namespace Action
variable {σ : Type} (engine : Engine σ)

def stopGrace : Span := Span.ofSecs 5

def stopContainer (id : String) : Action σ Unit := do
  match ← call engine (.stop id stopGrace) with
  | .ok () =>
    note (.nodeStopped id)
    count .stopped
  | .error f => note (.stopFailed id f)

def executeCommand (id : String) (command : List String) (wait : Bool) :
    Action σ (Option String) := do
  note (.executing command)
  match ← call engine (.exec id command wait) with
  | .ok (some output) =>
    note (.commandOutput output)
    pure (some output)
  | .ok none => pure none
  | .error (.outputInterrupted detail) =>
    note (.outputLost detail)
    pure none
  | .error f =>
    note (.commandFailed f)
    pure none

def copyFiles (id folder : String) : Action σ (Option Archive) := do
  match ← call engine (.archive id folder) with
  | .ok pieces => pure (some pieces)
  | .error f =>
    note (.copyFailed id folder f)
    pure none

/-- Which node answers at an address; one without a preview port is not recognised. -/
def registerNode (parent : String) (url : Url) : Action σ Registration := do
  match url.effectivePort? with
  | none =>
    note .hostWithoutPort
    pure .unknown
  | some port =>
    if url.port.isNone then note (.defaultPortAssumed port.number)
    match port.preview? with
    | none =>
      note (.noPreviewPort port.number)
      pure .unknown
    | some preview =>
      let id ← containerId engine (nodeName parent port.text)
      pure ⟨id, some preview⟩

def containerAddress (name : String) : Action σ (Option String) := do
  match ← containerId engine name with
  | none => pure none
  | some id =>
    match ← call engine (.inspect id) with
    | .ok detail => pure detail.address?
    | .error f =>
      note (.addressFailed f)
      pure none

def latestImage (image : String) : Action σ String := do
  match ← call engine (.listImages image) with
  | .error f =>
    note (.imagesFailed f)
    pure image
  | .ok images =>
    match Image.latestTag? images with
    | some tag => pure tag
    | none =>
      note (.imageNotFound image)
      pure image

def runningContainers (image : String) : Action σ Nat := do
  match ← call engine (.listContainers true) with
  | .ok listing => pure (runningCount listing image)
  | .error f =>
    note (.countFailed f)
    pure 0

end Action
end NodeFleet
