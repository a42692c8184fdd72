import NodeFleet.Daemon.Gateway
import NodeFleet.Log.Filter
import NodeFleet.Node.Upkeep
import NodeFleet.Settings.Load
/-!
The program itself: it loads its settings, finds out whether the parent container can host nodes,
and then reports the running fleet at every tick until it is told to stop. Once it runs, no failure
of the engine ends it.
-/

set_option autoImplicit false
namespace NodeFleet

inductive StartFailure
  | settings (error : SettingsError)
  | parent (name : String) (error : ConfigurationError)
deriving DecidableEq, Repr

namespace StartFailure

def message : StartFailure → String
  | .settings e => e.message
  | .parent name _ => "Parent container " ++ name ++ " cannot host nodes"

def cause? : StartFailure → Option String
  | .settings e => e.cause?
  | .parent _ e => some e.message

def complaint (f : StartFailure) : List String :=
  ("Error: " ++ f.message) :: match f.cause? with
    | some c => ["Caused by:", c]
    | none => []

end StartFailure

namespace Action
variable {σ : Type} (engine : Engine σ)

def announce (settings : Settings) : Action σ Unit := do
  note .starting
  if settings.metrics.enabled then note (.metricsReady settings.metrics.listenAddr)
  note (.gatewayConnected settings.engine.timeoutSecs)

def selectImage (image : String) : Action σ Unit := do
  let latest ← latestImage engine image
  note (.imageSelected latest)

def preflight (parent : String) : Action σ (Except ConfigurationError Unit) := do
  match ← mountBindings engine parent with
  | .error e => pure (.error e)
  | .ok mounts =>
    let network ← network engine parent
    let proxy ← proxyVariables engine parent
    note (.parentResolved parent network.mode network.extraHosts mounts.length
      proxy.entries.length)
    pure (.ok ())

def report (image : String) : Action σ Unit := do
  let running ← runningContainers engine image
  count (.running image running)
  note (.fleetStatus image running)

def reports (image : String) : Nat → Action σ Unit
  | 0 => pure ()
  | ticks + 1 => do
    report engine image
    reports image ticks

/-- The program from its start to its end after a number of ticks. -/
def monitor (settings : Settings) (ticks : Nat) : Action σ (Except StartFailure Unit) := do
  announce settings
  selectImage engine settings.nodeImage
  match ← preflight engine settings.parentContainer with
  | .error e => pure (.error (.parent settings.parentContainer e))
  | .ok () =>
    reports engine settings.nodeImage ticks
    note .shutdownReceived
    note .stopped
    pure (.ok ())

end Action

structure Run where
  failure : Option StartFailure
  /-- Notes that the log shows. -/
  notes : List Note
  requests : List Request

namespace Run

def exitCode (r : Run) : Nat := if r.failure.isSome then 1 else 0

def complaint (r : Run) : List String := (r.failure.map StartFailure.complaint).getD []

def filterVariable : String := "RUST_LOG"

def logFilter (environment : Table String) (settings : Settings) : LogFilter :=
  LogFilter.choose (environment.get? filterVariable) (Level.ofSetting settings.logLevel)

variable {τ : Type}

/-- Runs the program against a daemon for a number of ticks. -/
def ofProgramWith (library : SettingsFile.Library) (environment : Table String) (files : Files)
    (transport : Transport τ) (wire : τ) (ticks : Nat) : Run :=
  match Settings.loadWith library environment files with
  | .error e => ⟨some (.settings e), [], []⟩
  | .ok settings =>
    let (outcome, world) :=
      Action.monitor (Gateway.engine transport) settings ticks (World.begin (Link.begin wire))
    let filter := logFilter (Settings.allVariables environment files) settings
    { failure := match outcome with
        | .error f => some f
        | .ok () => none
      notes := world.notes.filter fun n => filter.shows n.target n.level
      requests := world.engine.requests }

def ofProgram : Table String → Files → Transport τ → τ → Nat → Run := ofProgramWith .plain

end Run
end NodeFleet
