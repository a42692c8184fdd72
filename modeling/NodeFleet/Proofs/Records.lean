import NodeFleet.Grid.Reason
import NodeFleet.Grid.Slot
import NodeFleet.Node.Status
import NodeFleet.Parent.Mounts
import NodeFleet.Parent.Network
import NodeFleet.Parent.Proxy
import NodeFleet.Proofs.Time.Timestamp
import NodeFleet.Settings.Reading

set_option autoImplicit false
namespace NodeFleet

/-- What was read is read again from what is written of it, and is then written the same. -/
def RoundTrips {α : Type} (decode : Json → Option α) (encode : α → Json) : Prop :=
  ∀ v a, decode v = some a →
    decode (encode a) = some a ∧ (decode (encode a)).map encode = some (encode a)

theorem RoundTrips.of_decoded {α : Type} {decode : Json → Option α} {encode : α → Json}
    {P : α → Prop} (decoded : ∀ v a, decode v = some a → P a)
    (encoded : ∀ a, P a → decode (encode a) = some a) : RoundTrips decode encode := by
  intro v a h
  have again := encoded a (decoded v a h)
  exact ⟨again, by rw [again, Option.map_some]⟩

theorem RoundTrips.of_encoded {α : Type} {decode : Json → Option α} {encode : α → Json}
    (encoded : ∀ a, decode (encode a) = some a) : RoundTrips decode encode :=
  of_decoded (fun _ _ _ => True.intro) fun a _ => encoded a

theorem CreationStatus.ofJson?_toJson (s : CreationStatus) : ofJson? s.toJson = some s := by
  have fields : s.toJson.record? fieldNames =
      some [some (.bool s.success), some (.text s.containerName), some (.ofOption s.mappedPort)] :=
    Json.record?_object [.bool s.success, .text s.containerName, .ofOption s.mappedPort]
      (by decide) rfl
  rw [ofJson?, fields]
  change (Json.optional? Json.asText? (some (.ofOption s.mappedPort))).bind
    (fun port => some (⟨s.success, s.containerName, port⟩ : CreationStatus)) = some s
  rw [Json.optional?_ofOption, Option.bind_some]

namespace Registration

theorem optional?_portToJson (port : Option Port) :
    Json.optional? portOfJson? (some (portToJson port)) = some port := by
  cases port with
  | none => rfl
  | some p =>
    change (portOfJson? (.natural p.number)).map some = some (some p)
    rw [portOfJson?, Json.asUnsigned?_natural p.number_le, Option.bind_some,
      Port.ofNat?_eq_some.mpr rfl, Option.map_some]

theorem ofJson?_toJson (r : Registration) : ofJson? r.toJson = some r := by
  have fields : r.toJson.record? fieldNames =
      some [some (.ofOption r.containerId), some (portToJson r.secondaryPort)] :=
    Json.record?_object [.ofOption r.containerId, portToJson r.secondaryPort] (by decide) rfl
  rw [ofJson?, fields]
  change (Json.optional? Json.asText? (some (.ofOption r.containerId))).bind (fun id =>
    (Json.optional? portOfJson? (some (portToJson r.secondaryPort))).bind fun port =>
      some (⟨id, port⟩ : Registration)) = some r
  rw [Json.optional?_ofOption, Option.bind_some, optional?_portToJson, Option.bind_some]

end Registration

theorem MountBinding.ofJson?_toJson (b : MountBinding) : ofJson? b.toJson = some b := by
  have fields : b.toJson.record? fieldNames =
      some [some (.text b.hostSource), some (.text b.containerDestination)] :=
    Json.record?_object [.text b.hostSource, .text b.containerDestination] (by decide) rfl
  rw [ofJson?, fields]
  rfl

theorem NodeNetwork.ofJson?_toJson (n : NodeNetwork) : ofJson? n.toJson = some n := by
  have fields : n.toJson.record? fieldNames =
      some [some (.text n.mode), some (.ofTexts n.extraHosts)] :=
    Json.record?_object [.text n.mode, .ofTexts n.extraHosts] (by decide) rfl
  rw [ofJson?, fields]
  change (Json.ofTexts n.extraHosts).asTexts?.bind
    (fun hosts => some (⟨n.mode, hosts⟩ : NodeNetwork)) = some n
  rw [Json.asTexts?_ofTexts, Option.bind_some]

theorem ProxyVariables.ofJson?_toJson (p : ProxyVariables) : ofJson? p.toJson = some p := by
  have fields : p.toJson.record? fieldNames = some [some (.ofTexts p.entries)] :=
    Json.record?_object [.ofTexts p.entries] (by decide) rfl
  rw [ofJson?, fields]
  change (Json.ofTexts p.entries).asTexts?.map ProxyVariables.mk = some p
  rw [Json.asTexts?_ofTexts, Option.map_some]

theorem Reason.ofJson?_toJson (r : Reason) : ofJson? r.toJson = some r := by
  cases r <;> decide

namespace SlotSession

structure Decoded (s : SlotSession) : Prop where
  inactivity : s.inactivity.secs ≤ maxU64
  lastStart : s.lastStart.Writable
  capabilities : s.capabilities.Increasing

theorem decoded_of_ofJson? {v : Json} {s : SlotSession} (h : ofJson? v = some s) : s.Decoded := by
  unfold ofJson? at h
  split at h
  · obtain ⟨_, _, h⟩ := Option.bind_eq_some_iff.mp h
    obtain ⟨_, _, h⟩ := Option.bind_eq_some_iff.mp h
    obtain ⟨_, inactivity, h⟩ := Option.bind_eq_some_iff.mp h
    obtain ⟨_, start, h⟩ := Option.bind_eq_some_iff.mp h
    obtain ⟨_, capabilities, h⟩ := Option.bind_eq_some_iff.mp h
    obtain rfl := Option.some.inj h
    exact ⟨Span.secs_le_of_ofJson? inactivity, Timestamp.writable_of_ofJson? start,
      Json.increasing_of_asTable? capabilities⟩
  · cases h

theorem ofJson?_toJson {s : SlotSession} (h : s.Decoded) : ofJson? s.toJson = some s := by
  have fields : s.toJson.record? fieldNames =
      some [some (.text s.slotId), some (.text s.sessionId), some s.inactivity.toJson,
        some s.lastStart.toJson, some (.object s.capabilities)] :=
    Json.record?_object [.text s.slotId, .text s.sessionId, s.inactivity.toJson,
      s.lastStart.toJson, .object s.capabilities] (by decide) rfl
  rw [ofJson?, fields]
  dsimp only [Option.bind_eq_bind]
  refine Option.bind_eq_some_iff.mpr ⟨s.slotId, rfl, ?_⟩
  refine Option.bind_eq_some_iff.mpr ⟨s.sessionId, rfl, ?_⟩
  refine Option.bind_eq_some_iff.mpr ⟨_, Span.ofJson?_toJson h.inactivity, ?_⟩
  refine Option.bind_eq_some_iff.mpr ⟨_, Timestamp.ofJson?_toJson h.lastStart, ?_⟩
  exact Option.bind_eq_some_iff.mpr ⟨_, Json.asTable?_object h.capabilities, rfl⟩

end SlotSession

theorem Json.understanding_object {names : List String} (values : List Json)
    (nodup : names.Nodup) (len : names.length = values.length) :
    understanding.record? names (.object (names.zip values)) = some (values.map some) :=
  looseRecord?_object values nodup len

theorem Understanding.of_field? {α : Type} {P : α → Prop} {default a : α}
    {read : Json → Option α} {given : Option Json} (left : P default)
    (each : ∀ v a, read v = some a → P a) (h : field? default read given = some a) : P a := by
  cases given with
  | none => exact Option.some.inj h ▸ left
  | some v => exact each v a h

theorem le_of_unsignedField {default n : Nat} {given : Option Json} (fits : default ≤ maxU64)
    (h : Understanding.field? default Json.understanding.unsigned? given = some n) :
    n ≤ maxU64 :=
  Understanding.of_field? (P := (· ≤ maxU64)) fits (fun _ _ => Json.le_of_asUnsigned?) h

namespace EngineSettings

theorem timeout_le (v : Json) (e : EngineSettings) (h : read? Json.understanding v = some e) :
    e.timeoutSecs ≤ maxU64 := by
  unfold read? at h
  split at h
  · obtain ⟨_, _, h⟩ := Option.bind_eq_some_iff.mp h
    obtain ⟨_, timeout, h⟩ := Option.bind_eq_some_iff.mp h
    exact Option.some.inj h ▸ le_of_unsignedField (by decide) timeout
  · cases h

theorem read?_toJson {e : EngineSettings} (h : e.timeoutSecs ≤ maxU64) :
    read? Json.understanding e.toJson = some e := by
  have fields : Json.understanding.record? fieldNames e.toJson =
      some [some (.ofOption e.socket), some (.natural e.timeoutSecs)] :=
    Json.understanding_object [.ofOption e.socket, .natural e.timeoutSecs] (by decide) rfl
  rw [read?, fields]
  dsimp only [Option.bind_eq_bind]
  refine Option.bind_eq_some_iff.mpr ⟨_, Json.optional?_ofOption e.socket, ?_⟩
  exact Option.bind_eq_some_iff.mpr ⟨_, Json.asUnsigned?_natural h, rfl⟩

end EngineSettings

namespace ReclaimerSettings

theorem numbers_le (v : Json) (r : ReclaimerSettings) (h : read? Json.understanding v = some r) :
    r.idleThresholdSecs ≤ maxU64 ∧ r.pollIntervalMs ≤ maxU64 := by
  unfold read? at h
  split at h
  · obtain ⟨_, threshold, h⟩ := Option.bind_eq_some_iff.mp h
    obtain ⟨_, interval, h⟩ := Option.bind_eq_some_iff.mp h
    obtain rfl := Option.some.inj h
    exact ⟨le_of_unsignedField (by decide) threshold, le_of_unsignedField (by decide) interval⟩
  · cases h

theorem read?_toJson {r : ReclaimerSettings} (threshold : r.idleThresholdSecs ≤ maxU64)
    (interval : r.pollIntervalMs ≤ maxU64) : read? Json.understanding r.toJson = some r := by
  have fields : Json.understanding.record? fieldNames r.toJson =
      some [some (.natural r.idleThresholdSecs), some (.natural r.pollIntervalMs)] :=
    Json.understanding_object [.natural r.idleThresholdSecs, .natural r.pollIntervalMs]
      (by decide) rfl
  rw [read?, fields]
  dsimp only [Option.bind_eq_bind]
  refine Option.bind_eq_some_iff.mpr ⟨_, Json.asUnsigned?_natural threshold, ?_⟩
  exact Option.bind_eq_some_iff.mpr ⟨_, Json.asUnsigned?_natural interval, rfl⟩

end ReclaimerSettings

theorem MetricsSettings.read?_toJson (m : MetricsSettings) :
    read? Json.understanding m.toJson = some m := by
  have fields : Json.understanding.record? fieldNames m.toJson =
      some [some (.bool m.enabled), some (.ofOption m.listenAddr)] :=
    Json.understanding_object [.bool m.enabled, .ofOption m.listenAddr] (by decide) rfl
  rw [read?, fields]
  dsimp only [Option.bind_eq_bind]
  refine Option.bind_eq_some_iff.mpr ⟨m.enabled, rfl, ?_⟩
  exact Option.bind_eq_some_iff.mpr ⟨_, Json.optional?_ofOption m.listenAddr, rfl⟩

namespace Settings

structure Decoded (s : Settings) : Prop where
  monitor : s.monitorIntervalSecs ≤ maxU64
  timeout : s.engine.timeoutSecs ≤ maxU64
  threshold : s.reclaimer.idleThresholdSecs ≤ maxU64
  interval : s.reclaimer.pollIntervalMs ≤ maxU64

theorem decoded_of_ofJson? {v : Json} {s : Settings} (h : ofJson? v = some s) : s.Decoded := by
  unfold ofJson? read? at h
  split at h
  · obtain ⟨_, _, h⟩ := Option.bind_eq_some_iff.mp h
    obtain ⟨_, _, h⟩ := Option.bind_eq_some_iff.mp h
    obtain ⟨_, _, h⟩ := Option.bind_eq_some_iff.mp h
    obtain ⟨_, monitor, h⟩ := Option.bind_eq_some_iff.mp h
    obtain ⟨_, engine, h⟩ := Option.bind_eq_some_iff.mp h
    obtain ⟨_, reclaimer, h⟩ := Option.bind_eq_some_iff.mp h
    obtain ⟨_, _, h⟩ := Option.bind_eq_some_iff.mp h
    obtain rfl := Option.some.inj h
    have timeout := Understanding.of_field? (P := (·.timeoutSecs ≤ maxU64)) (by decide)
      EngineSettings.timeout_le engine
    have numbers := Understanding.of_field?
      (P := fun r => r.idleThresholdSecs ≤ maxU64 ∧ r.pollIntervalMs ≤ maxU64) (by decide)
      ReclaimerSettings.numbers_le reclaimer
    exact ⟨le_of_unsignedField (by decide) monitor, timeout, numbers.1, numbers.2⟩
  · cases h

theorem ofJson?_toJson {s : Settings} (h : s.Decoded) : ofJson? s.toJson = some s := by
  have fields : Json.understanding.record? fieldNames s.toJson =
      some [some (.text s.logLevel), some (.text s.parentContainer), some (.text s.nodeImage),
        some (.natural s.monitorIntervalSecs), some s.engine.toJson, some s.reclaimer.toJson,
        some s.metrics.toJson] :=
    Json.understanding_object [.text s.logLevel, .text s.parentContainer, .text s.nodeImage,
      .natural s.monitorIntervalSecs, s.engine.toJson, s.reclaimer.toJson, s.metrics.toJson]
      (by decide) rfl
  rw [ofJson?, read?, fields]
  dsimp only [Option.bind_eq_bind]
  refine Option.bind_eq_some_iff.mpr ⟨s.logLevel, rfl, ?_⟩
  refine Option.bind_eq_some_iff.mpr ⟨s.parentContainer, rfl, ?_⟩
  refine Option.bind_eq_some_iff.mpr ⟨s.nodeImage, rfl, ?_⟩
  refine Option.bind_eq_some_iff.mpr ⟨_, Json.asUnsigned?_natural h.monitor, ?_⟩
  refine Option.bind_eq_some_iff.mpr ⟨_, EngineSettings.read?_toJson h.timeout, ?_⟩
  refine Option.bind_eq_some_iff.mpr
    ⟨_, ReclaimerSettings.read?_toJson h.threshold h.interval, ?_⟩
  exact Option.bind_eq_some_iff.mpr ⟨_, MetricsSettings.read?_toJson s.metrics, rfl⟩

end Settings

/-- However a record was given, what is written of it reads as the same record. -/
theorem records_round_trip :
    RoundTrips CreationStatus.ofJson? CreationStatus.toJson ∧
      RoundTrips Registration.ofJson? Registration.toJson ∧
      RoundTrips MountBinding.ofJson? MountBinding.toJson ∧
      RoundTrips NodeNetwork.ofJson? NodeNetwork.toJson ∧
      RoundTrips ProxyVariables.ofJson? ProxyVariables.toJson ∧
      RoundTrips Reason.ofJson? Reason.toJson ∧
      RoundTrips SlotSession.ofJson? SlotSession.toJson ∧
      RoundTrips Settings.ofJson? Settings.toJson := by
  refine ⟨.of_encoded CreationStatus.ofJson?_toJson, .of_encoded Registration.ofJson?_toJson,
    .of_encoded MountBinding.ofJson?_toJson, .of_encoded NodeNetwork.ofJson?_toJson,
    .of_encoded ProxyVariables.ofJson?_toJson, .of_encoded Reason.ofJson?_toJson, ?_, ?_⟩
  · exact .of_decoded (fun _ _ => SlotSession.decoded_of_ofJson?)
      fun _ => SlotSession.ofJson?_toJson
  · exact .of_decoded (fun _ _ => Settings.decoded_of_ofJson?) fun _ => Settings.ofJson?_toJson

def lateSessionData : Json :=
  .object [("note", .null), ("session_id", .text "a1"), ("slot_id", .text "s"),
    ("inactivity", .list [.natural 1, .natural 2500000000]),
    ("last_session_start", .text "9999-12-31T23:30:60.5-01:00"),
    ("requested_capabilities", .object [("b", .integer 2), ("a", .null), ("b", .integer 1)])]

def lateSession : SlotSession :=
  ⟨"s", "a1", ⟨3, 500000000, by decide⟩, ⟨253402302659, 1500000000⟩,
    [("a", .null), ("b", .integer 1)]⟩

def lateSessionWritten : Json :=
  .object [("slot_id", .text "s"), ("session_id", .text "a1"),
    ("inactivity", .object [("secs", .natural 3), ("nanos", .natural 500000000)]),
    ("last_session_start", .text "+10000-01-01T00:30:60.500Z"),
    ("requested_capabilities", .object [("a", .null), ("b", .integer 1)])]

theorem records_round_trip_late :
    SlotSession.ofJson? lateSessionData = some lateSession ∧
      lateSession.toJson = lateSessionWritten ∧
      SlotSession.ofJson? lateSessionWritten = some lateSession := by
  have given : SlotSession.ofJson? lateSessionData = some lateSession := by rfl
  have start : lateSession.lastStart.render = "+10000-01-01T00:30:60.500Z" := by decide +kernel
  have written : lateSession.toJson = lateSessionWritten := by
    rw [SlotSession.toJson, Timestamp.toJson, start]
    rfl
  have again := (records_round_trip.2.2.2.2.2.2.1 lateSessionData lateSession given).1
  rw [written] at again
  exact ⟨given, written, again⟩

end NodeFleet
