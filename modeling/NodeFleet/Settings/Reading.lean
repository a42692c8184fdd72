import NodeFleet.Json.Record
import NodeFleet.Settings.Basic

set_option autoImplicit false
namespace NodeFleet

structure Understanding (V : Type) where
  /-- Fields by name, or in order. -/
  record? : List String → V → Option (List (Option V))
  text? : V → Option String
  optionalText? : V → Option (Option String)
  unsigned? : V → Option Nat
  flag? : V → Option Bool

namespace Understanding
variable {V : Type}

def field? {α : Type} (default : α) (read : V → Option α) : Option V → Option α
  | none => some default
  | some v => read v

end Understanding

namespace EngineSettings

def fieldNames : List String := ["socket", "timeout_secs"]

def read? {V : Type} (u : Understanding V) (v : V) : Option EngineSettings :=
  match u.record? fieldNames v with
  | some [socket, timeout] => do
    pure ⟨← Understanding.field? default.socket u.optionalText? socket,
      ← Understanding.field? default.timeoutSecs u.unsigned? timeout⟩
  | _ => none

def toJson (e : EngineSettings) : Json :=
  .object [("socket", .ofOption e.socket), ("timeout_secs", .natural e.timeoutSecs)]

end EngineSettings

namespace ReclaimerSettings

def fieldNames : List String := ["idle_threshold_secs", "poll_interval_ms"]

def read? {V : Type} (u : Understanding V) (v : V) : Option ReclaimerSettings :=
  match u.record? fieldNames v with
  | some [threshold, interval] => do
    pure ⟨← Understanding.field? default.idleThresholdSecs u.unsigned? threshold,
      ← Understanding.field? default.pollIntervalMs u.unsigned? interval⟩
  | _ => none

def toJson (r : ReclaimerSettings) : Json :=
  .object [("idle_threshold_secs", .natural r.idleThresholdSecs),
    ("poll_interval_ms", .natural r.pollIntervalMs)]

end ReclaimerSettings

namespace MetricsSettings

def fieldNames : List String := ["enabled", "listen_addr"]

def read? {V : Type} (u : Understanding V) (v : V) : Option MetricsSettings :=
  match u.record? fieldNames v with
  | some [enabled, listen] => do
    pure ⟨← Understanding.field? default.enabled u.flag? enabled,
      ← Understanding.field? default.listenAddr u.optionalText? listen⟩
  | _ => none

def toJson (m : MetricsSettings) : Json :=
  .object [("enabled", .bool m.enabled), ("listen_addr", .ofOption m.listenAddr)]

end MetricsSettings

namespace Settings

def fieldNames : List String :=
  ["log_level", "parent_container", "node_image", "monitor_interval_secs", "docker", "reclaimer",
    "metrics"]

def read? {V : Type} (u : Understanding V) (v : V) : Option Settings :=
  match u.record? fieldNames v with
  | some [logLevel, parent, image, monitor, engine, reclaimer, metrics] => do
    pure {
      logLevel := ← Understanding.field? default.logLevel u.text? logLevel
      parentContainer := ← Understanding.field? default.parentContainer u.text? parent
      nodeImage := ← Understanding.field? default.nodeImage u.text? image
      monitorIntervalSecs := ← Understanding.field? default.monitorIntervalSecs u.unsigned? monitor
      engine := ← Understanding.field? default.engine (EngineSettings.read? u) engine
      reclaimer := ← Understanding.field? default.reclaimer (ReclaimerSettings.read? u) reclaimer
      metrics := ← Understanding.field? default.metrics (MetricsSettings.read? u) metrics }
  | _ => none

def toJson (s : Settings) : Json :=
  .object [("log_level", .text s.logLevel), ("parent_container", .text s.parentContainer),
    ("node_image", .text s.nodeImage), ("monitor_interval_secs", .natural s.monitorIntervalSecs),
    ("docker", s.engine.toJson), ("reclaimer", s.reclaimer.toJson), ("metrics", s.metrics.toJson)]

end Settings

/-- Data has the type of its setting; only an optional text may be null. -/
def Json.understanding : Understanding Json where
  record? := Json.looseRecord?
  text? := Json.asText?
  optionalText? v := Json.optional? Json.asText? (some v)
  unsigned? := Json.asUnsigned? maxU64
  flag? := Json.asBool?

def Settings.ofJson? (v : Json) : Option Settings := Settings.read? Json.understanding v

end NodeFleet
