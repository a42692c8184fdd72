import NodeFleet.Net.SocketAddress
import NodeFleet.Text.Blank
import NodeFleet.Time.Span

set_option autoImplicit false
namespace NodeFleet

structure EngineSettings where
  socket : Option String
  timeoutSecs : Nat
deriving DecidableEq, Repr

structure ReclaimerSettings where
  /-- Inactivity after which a session is reclaimed. -/
  idleThresholdSecs : Nat
  /-- Delay between two polls of the occupied slots. -/
  pollIntervalMs : Nat
deriving DecidableEq, Repr

structure MetricsSettings where
  enabled : Bool
  /-- Where measurements can be read; without an address they are only kept. -/
  listenAddr : Option String
deriving DecidableEq, Repr

structure Settings where
  logLevel : String
  parentContainer : String
  nodeImage : String
  monitorIntervalSecs : Nat
  engine : EngineSettings
  reclaimer : ReclaimerSettings
  metrics : MetricsSettings
deriving DecidableEq, Repr

def EngineSettings.default : EngineSettings := ⟨none, 120⟩
def ReclaimerSettings.default : ReclaimerSettings := ⟨90, 500⟩
def MetricsSettings.default : MetricsSettings := ⟨true, none⟩

def Settings.default : Settings where
  logLevel := "info"
  parentContainer := "dockgrid"
  nodeImage := "elgalu/selenium"
  monitorIntervalSecs := 5
  engine := .default
  reclaimer := .default
  metrics := .default

inductive SettingsError
  /-- A file cannot be read as a table. -/
  | unreadable
  /-- A value does not fit its setting. -/
  | unfitting
  | blankParent
  | blankImage
  | zeroMonitorInterval
  | zeroTimeout
  | zeroIdleThreshold
  | shortPollInterval
  | badListenAddress (given : String)
deriving DecidableEq, Repr

namespace SettingsError

def message : SettingsError → String
  | .unreadable => "Failed to build configuration"
  | .unfitting => "Failed to deserialize configuration"
  | .blankParent => "Parent container name cannot be empty"
  | .blankImage => "Node image cannot be empty"
  | .zeroMonitorInterval => "Monitor interval cannot be 0"
  | .zeroTimeout => "Docker timeout cannot be 0"
  | .zeroIdleThreshold => "Idle threshold cannot be 0"
  | .shortPollInterval => "Minimum poll interval is 10ms"
  | .badListenAddress s => "Invalid metrics listen address: " ++ s

def cause? : SettingsError → Option String
  | .badListenAddress _ => some "invalid socket address syntax"
  | _ => none

end SettingsError

namespace ReclaimerSettings

def idleThreshold (r : ReclaimerSettings) : Span := Span.ofSecs r.idleThresholdSecs

def pollInterval (r : ReclaimerSettings) : Span := Span.ofMillis r.pollIntervalMs

def minPollIntervalMs : Nat := 10

end ReclaimerSettings

def MetricsSettings.address (m : MetricsSettings) : Except SettingsError (Option SocketAddress) :=
  match m.listenAddr with
  | none => .ok none
  | some s =>
    match SocketAddress.read? s with
    | some a => .ok (some a)
    | none => .error (.badListenAddress s)

namespace Settings

/-- The first condition that fails, in a fixed order. -/
def invalid? (s : Settings) : Option SettingsError :=
  if isBlank s.parentContainer then some .blankParent
  else if isBlank s.nodeImage then some .blankImage
  else if s.monitorIntervalSecs = 0 then some .zeroMonitorInterval
  else if s.engine.timeoutSecs = 0 then some .zeroTimeout
  else if s.reclaimer.idleThresholdSecs = 0 then some .zeroIdleThreshold
  else if s.reclaimer.pollIntervalMs < ReclaimerSettings.minPollIntervalMs then
    some .shortPollInterval
  else match s.metrics.address with
    | .error e => some e
    | .ok _ => none

end Settings
end NodeFleet
