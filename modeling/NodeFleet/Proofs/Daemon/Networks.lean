import Mathlib.Data.List.Permutation
import NodeFleet.Daemon.Gateway
import NodeFleet.Node.Upkeep
import NodeFleet.Proofs.Parent.Refusal
import NodeFleet.Proofs.Text.ByteOrder
import NodeFleet.Proofs.Text.Encoding

set_option autoImplicit false
namespace NodeFleet

namespace Daemon

/-- What stands around the networks in the answer to an inspection, and around the settings that
they are part of. -/
structure Surroundings where
  before : List (String × Json)
  after : List (String × Json)
  settingsBefore : List (String × Json)
  settingsAfter : List (String × Json)

def Surroundings.inspection (s : Surroundings) (networks : Json) : Json :=
  .object (s.before ++ ("NetworkSettings", .object
    (s.settingsBefore ++ ("Networks", networks) :: s.settingsAfter)) :: s.after)

theorem networkSettings?_networks (before after : List (String × Json)) (v : Json) :
    networkSettings? (some (.object (before ++ ("Networks", v) :: after))) =
      (networkSettings? (some (.object (before ++ ("Networks", .null) :: after)))).bind fun d =>
        (networks? (some v)).map fun attached => (d.1, attached) := by
  have unset : networks? (some .null) = some [] := rfl
  simp only [networkSettings?, orEmpty, Json.optional?, object?, Json.namedFields?, List.mapM_cons,
    List.mapM_nil, Json.occurrences_insert]
  -- settings that name their networks once more are refused
  cases Json.occurrences "Networks" before with
  | cons w r => cases r <;> simp
  | nil =>
    cases Json.occurrences "Networks" after with
    | cons w r => simp
    | nil =>
      cases attached : networks? (some v) with
      | none => simp [Option.bind_assoc, unset, attached]
      | some listed =>
        simp only [String.reduceEq, if_false, if_true, List.append_nil, List.nil_append,
          Option.pure_def, Option.bind_eq_bind, Option.bind_some, Option.bind_assoc, attached, unset,
          Option.map_bind, Function.comp_def, Option.map_some, Option.getD_some]

theorem detail?_settings (before after : List (String × Json)) (v : Json) :
    detail? (.object (before ++ ("NetworkSettings", v) :: after)) =
      (detail? (.object (before ++ ("NetworkSettings", .null) :: after))).bind fun d =>
        (networkSettings? (some v)).map fun settings =>
          { d with ipAddress := settings.1, networks := settings.2 } := by
  have unset : networkSettings? (some .null) = some ("", []) := rfl
  simp only [detail?, object?, Json.namedFields?, List.mapM_cons, List.mapM_nil,
    Json.occurrences_insert]
  cases Json.occurrences "NetworkSettings" before with
  | cons w r => cases r <;> simp
  | nil =>
    cases Json.occurrences "NetworkSettings" after with
    | cons w r => simp
    | nil =>
      cases settings : networkSettings? (some v) <;> simp [Option.bind_assoc, unset, settings]

theorem networks?_object (networks : List (String × Json)) : networks? (some (.object networks)) =
    (Json.asTable? address? (.object networks)).map fun t => t.map fun e => ⟨e.1, e.2⟩ := by
  have present : Json.object networks ≠ .null := nofun
  rw [networks?, orEmpty, Json.optional?.eq_3 _ _ present]
  cases Json.asTable? address? (.object networks) <;> rfl

theorem detail?_inspection (s : Surroundings) (v : Json) : detail? (s.inspection v) =
    (detail? (s.inspection .null)).bind fun d => (networks? (some v)).map fun attached =>
      { d with networks := attached } := by
  have unset : networks? (some .null) = some [] := rfl
  rw [Surroundings.inspection, Surroundings.inspection, detail?_settings,
    detail?_settings s.before s.after (.object _), networkSettings?_networks,
    networkSettings?_networks s.settingsBefore s.settingsAfter .null, unset]
  generalize networkSettings? (some (.object (s.settingsBefore ++ _))) = settings
  generalize detail? (.object (s.before ++ ("NetworkSettings", .null) :: s.after)) = rest
  cases rest <;> cases settings <;> cases networks? (some v) <;> rfl

variable {s : Surroundings} {networks reordered : List (String × Json)} {detail : Detail}

theorem detail?_reordered (distinct : (networks.map (·.1)).Nodup) (perm : networks.Perm reordered) :
    detail? (s.inspection (.object networks)) = detail? (s.inspection (.object reordered)) := by
  rw [detail?_inspection, detail?_inspection s (.object reordered), networks?_object,
    networks?_object, Json.asTable?_perm distinct perm]

theorem mem_networks_iff (distinct : (networks.map (·.1)).Nodup)
    (read : detail? (s.inspection (.object networks)) = some detail) (n : AttachedNetwork) :
    n ∈ detail.networks ↔ ∃ v, (n.name, v) ∈ networks ∧ address? v = some n.ipAddress := by
  rw [detail?_inspection, networks?_object] at read
  obtain ⟨rest, -, settled⟩ := Option.bind_eq_some_iff.mp read
  obtain ⟨attached, taken, rfl⟩ := Option.map_eq_some_iff.mp settled
  obtain ⟨t, table, rfl⟩ := Option.map_eq_some_iff.mp taken
  rw [← Json.mem_of_asTable? distinct table, List.mem_map]
  constructor
  · rintro ⟨⟨name, address⟩, mem, rfl⟩
    exact mem
  · intro mem
    exact ⟨_, mem, rfl⟩

/-- Networks in the order of the bytes of their names. -/
def ByName (networks : List AttachedNetwork) : Prop :=
  networks.Pairwise fun n m => encodeText n.name < encodeText m.name

theorem orEmpty_eq_some {α : Type} {empty a : α} {item : Json → Option α} {v : Option Json}
    (h : orEmpty empty item v = some a) : a = empty ∨ ∃ w, item w = some a := by
  obtain ⟨given, read, rfl⟩ := Option.map_eq_some_iff.mp h
  unfold Json.optional? at read
  split at read
  · cases read
    exact .inl rfl
  · cases read
    exact .inl rfl
  · obtain ⟨b, found, rfl⟩ := Option.map_eq_some_iff.mp read
    exact .inr ⟨_, found⟩

theorem byName_of_networks? {v : Option Json} {attached : List AttachedNetwork}
    (read : networks? v = some attached) : ByName attached := by
  obtain ⟨t, table, rfl⟩ := Option.map_eq_some_iff.mp read
  refine List.pairwise_map.mpr ?_
  obtain rfl | ⟨w, found⟩ := orEmpty_eq_some table
  · exact .nil
  · exact (List.pairwise_map.mp (Json.increasing_of_asTable? found)).imp
      Utf8.lt_iff_encodeText_lt.mp

theorem byName_of_networkSettings? {v : Option Json} {settings : String × List AttachedNetwork}
    (read : networkSettings? v = some settings) : ByName settings.2 := by
  obtain rfl | ⟨w, found⟩ := orEmpty_eq_some read
  · exact .nil
  · obtain ⟨values, -, chosen⟩ := Option.bind_eq_some_iff.mp found
    split at chosen
    · obtain ⟨ip, -, further⟩ := Option.bind_eq_some_iff.mp chosen
      obtain ⟨attached, taken, same⟩ := Option.bind_eq_some_iff.mp further
      obtain rfl := Option.some.inj same
      exact byName_of_networks? taken
    · cases chosen

theorem byName_of_detail? {v : Json} (read : detail? v = some detail) : ByName detail.networks := by
  obtain ⟨values, -, chosen⟩ := Option.bind_eq_some_iff.mp read
  split at chosen
  · obtain ⟨settings, taken, further⟩ := Option.bind_eq_some_iff.mp chosen
    simp only [bind, Option.bind_eq_some_iff, pure, Option.some.injEq] at further
    obtain ⟨_, _, _, _, _, _, _, _, _, _, rfl⟩ := further
    exact byName_of_networkSettings? taken
  · cases chosen

end Daemon

/-- Of all networks that will do, the one whose name has the least bytes. -/
structure Least (networks : List AttachedNetwork) (fits : AttachedNetwork → Bool)
    (n : AttachedNetwork) : Prop where
  listed : n ∈ networks
  own : fits n = true
  least : ∀ m ∈ networks, fits m = true → m = n ∨ encodeText n.name < encodeText m.name

section
variable {networks : List AttachedNetwork} {fits : AttachedNetwork → Bool} {n : AttachedNetwork}

theorem find?_eq_some_iff_least (ordered : Daemon.ByName networks) :
    networks.find? fits = some n ↔ Least networks fits n := by
  have least {n : AttachedNetwork} (found : networks.find? fits = some n) :
      Least networks fits n := by
    obtain ⟨own, before, after, split, skipped⟩ := List.find?_eq_some_iff_append.mp found
    refine ⟨List.mem_of_find?_eq_some found, own, fun m mem fit => ?_⟩
    rw [split] at mem ordered
    rcases List.mem_append.mp mem with early | late
    · exact absurd fit (by simpa using skipped m early)
    · rcases List.mem_cons.mp late with same | later
      · exact .inl same
      · exact .inr ((List.pairwise_cons.mp (List.pairwise_append.mp ordered).2.1).1 m later)
  refine ⟨least, fun h => ?_⟩
  obtain ⟨m, found⟩ := Option.isSome_iff_exists.mp
    (List.find?_isSome.mpr ⟨n, h.listed, h.own⟩)
  have other := least found
  rcases other.least n h.listed h.own with same | before
  · rw [found, same]
  · rcases h.least m other.listed other.own with same | after
    · rw [found, same]
    · exact absurd after (List.lt_asymm before)

def IsMode (networks : List AttachedNetwork) (mode : String) : Prop :=
  (∃ n, Least networks (fun n => !sameIgnoringCase n.name "bridge") n ∧ mode = n.name) ∨
    (∀ n ∈ networks, sameIgnoringCase n.name "bridge" = true) ∧ mode = "default"

theorem isMode_modeOf (ordered : Daemon.ByName networks) :
    IsMode networks (NodeNetwork.modeOf networks) := by
  rw [NodeNetwork.modeOf]
  cases found : networks.find? fun n => !sameIgnoringCase n.name NodeNetwork.bridgeName with
  | some n => exact .inl ⟨n, (find?_eq_some_iff_least ordered).mp found, rfl⟩
  | none =>
    refine .inr ⟨fun n mem => ?_, rfl⟩
    have bridge := List.find?_eq_none.mp found n mem
    rwa [Bool.not_eq_true', Bool.not_eq_false] at bridge

end

/-- The address that a container is reached at: the one on the default bridge unless it is blank,
else that of the network with the least name among those whose address is not. -/
def IsAddress (detail : Detail) (address : String) : Prop :=
  isBlank address = false ∧ (address = detail.ipAddress ∨ isBlank detail.ipAddress = true ∧
    ∃ n, Least detail.networks (fun n => !isBlank n.ipAddress) n ∧ address = n.ipAddress)

theorem address?_eq_some_iff {detail : Detail} (ordered : Daemon.ByName detail.networks)
    {address : String} : detail.address? = some address ↔ IsAddress detail address := by
  rw [Detail.address?, IsAddress]
  cases unset : isBlank detail.ipAddress with
  | false =>
    rw [if_pos Bool.not_false, Option.some.injEq, eq_comm]
    constructor
    · rintro rfl
      exact ⟨unset, .inl rfl⟩
    · rintro ⟨-, same | ⟨blank, -⟩⟩
      · exact same
      · cases blank
  | true =>
    rw [Bool.not_true, if_neg Bool.false_ne_true, List.find?_map, Option.map_eq_some_iff]
    constructor
    · rintro ⟨n, found, rfl⟩
      have least := (find?_eq_some_iff_least ordered).mp found
      have own : isBlank n.ipAddress = false := by simpa using least.own
      exact ⟨own, .inr ⟨rfl, n, least, rfl⟩⟩
    · rintro ⟨own, rfl | ⟨-, n, least, rfl⟩⟩
      · rw [unset] at own
        cases own
      · exact ⟨n, (find?_eq_some_iff_least ordered).mpr least, rfl⟩

namespace Action
variable {σ : Type} (engine : Engine σ)

theorem findNetwork_mode (parent : String) (w : World σ) :
    (findNetwork engine parent w).1.mode =
      NodeNetwork.modeOf (((inspectParent engine parent w).1.map (·.networks)).getD []) := by
  rw [findNetwork, bind_apply]
  dsimp only
  split <;> rfl

theorem containerAddress_answer (name : String) (w : World σ) :
    (containerAddress engine name w).1 = (inspectParent engine name w).1.bind Detail.address? := by
  rw [containerAddress, inspectParent, bind_apply, bind_apply]
  cases (containerId engine name w).1 with
  | none => rfl
  | some id =>
    dsimp only
    rw [bind_apply, bind_apply]
    cases (call engine (.inspect id) (containerId engine name w).2).1 <;> rfl

end Action

section
variable {τ : Type} {transport other : Transport τ} {link : Link τ} {id : String} {v w : Json}
  {wire : τ}

/-- The daemon says this about the container. -/
def Describes (transport : Transport τ) (id : String) (link : Link τ) (wire : τ) (v : Json) :
    Prop :=
  ∃ r, transport (.inspect id) link.wire = (.answered r, wire) ∧ r.isSuccess = true ∧
    r.json? = some v

theorem inspect_of_describes (h : Describes transport id link wire v) :
    Gateway.engine transport (.inspect id) link =
      ((Daemon.detail? v).elim (.error Response.broken) .ok,
        { link with wire := wire, requests := link.requests ++ [.inspect id] }) :=
  Gateway.askFor_of_replies Daemon.detail? h

theorem byName_of_inspect {detail : Detail}
    (h : (Gateway.engine transport (.inspect id) link).1 = .ok detail) :
    Daemon.ByName detail.networks := by
  obtain ⟨wire, v, -, read⟩ := Gateway.replies_of_askFor Daemon.detail? h
  exact Daemon.byName_of_detail? read

theorem byName_of_inspects {name : String} {detail : Detail}
    (h : Inspects (Gateway.engine transport) name link detail) : Daemon.ByName detail.networks := by
  obtain ⟨listing, id, -, -, inspected⟩ := h
  exact byName_of_inspect inspected

end

/-- A container's networks are those that the daemon lists, in the order of the bytes of their
names; the order in which they are listed is not to be seen. So the network mode of nodes is the
least name apart from the bridge, and the address of a container without one on the bridge is that
of the network with the least name among those that have one. -/
theorem networks_are_taken_by_name {τ : Type} (transport : Transport τ) :
    let engine := Gateway.engine transport
    (∀ (s : Daemon.Surroundings) (networks reordered : List (String × Json)),
      (networks.map (·.1)).Nodup → networks.Perm reordered →
      ∀ (other : Transport τ) (id : String) (link : Link τ) (wire : τ),
        Describes transport id link wire (s.inspection (.object networks)) →
        Describes other id link wire (s.inspection (.object reordered)) →
        engine (.inspect id) link = Gateway.engine other (.inspect id) link ∧
          ∀ detail, (engine (.inspect id) link).1 = .ok detail → ∀ n, n ∈ detail.networks ↔
            ∃ v, (n.name, v) ∈ networks ∧ Daemon.address? v = some n.ipAddress) ∧
      (∀ id link detail, (engine (.inspect id) link).1 = .ok detail →
        Daemon.ByName detail.networks) ∧
      (∀ parent (w : World (Link τ)), ∃ networks,
        IsMode networks (Action.findNetwork engine parent w).1.mode ∧
          ((∃ detail, Inspects engine parent w.engine detail ∧ networks = detail.networks) ∨
            (∀ detail, ¬ Inspects engine parent w.engine detail) ∧ networks = [])) ∧
      ∀ name (w : World (Link τ)) address,
        (Action.containerAddress engine name w).1 = some address ↔
          ∃ detail, Inspects engine name w.engine detail ∧ IsAddress detail address := by
  intro engine
  refine ⟨fun s networks reordered distinct perm other id link wire told told' => ⟨?_, ?_⟩,
    fun id link detail => byName_of_inspect, fun parent w => ?_, fun name w address => ?_⟩
  · have first := inspect_of_describes told
    rw [Daemon.detail?_reordered distinct perm] at first
    exact first.trans (inspect_of_describes told').symm
  · intro detail answer n
    have told := congrArg (·.1) (inspect_of_describes told)
    change (engine (.inspect id) link).1 = _ at told
    rw [told] at answer
    cases read : Daemon.detail? (s.inspection (.object networks)) with
    | none =>
      rw [read] at answer
      cases answer
    | some d =>
      rw [read] at answer
      obtain rfl := Except.ok.inj answer
      exact Daemon.mem_networks_iff distinct read n
  · have inspects := Action.inspectParent_eq_some engine parent w
    rw [Action.findNetwork_mode]
    cases seen : (Action.inspectParent engine parent w).1 with
    | none =>
      refine ⟨[], isMode_modeOf .nil, .inr ⟨fun detail inspected => ?_, rfl⟩⟩
      cases seen.symm.trans ((inspects detail).mpr inspected)
    | some detail =>
      have inspected := (inspects detail).mp seen
      exact ⟨detail.networks, isMode_modeOf (byName_of_inspects inspected),
        .inl ⟨detail, inspected, rfl⟩⟩
  · rw [Action.containerAddress_answer, Option.bind_eq_some_iff]
    refine exists_congr fun detail => ?_
    rw [Action.inspectParent_eq_some]
    exact and_congr_right fun inspected => address?_eq_some_iff (byName_of_inspects inspected)

def hubDaemon (inspection : String) : Transport Unit := fun request wire =>
  match request.query with
  | [] => (.answered ⟨200, encodeText inspection, false⟩, wire)
  | _ => (.answered ⟨200, encodeText "[\x7b\"Id\":\"h\",\"Names\":[\"/hub\"]\x7d]", false⟩, wire)

theorem hubDaemon_describes {inspection : String} {v : Json}
    (read : Json.readChars? inspection.toList = some v) :
    Describes (hubDaemon inspection) "h" (Link.begin ()) () v :=
  ⟨⟨200, encodeText inspection, false⟩, rfl, rfl, Response.json?_of_text rfl read⟩

def gridNetworks : List (String × Json) :=
  [("grid", .object [("IPAddress", .text "10.0.0.2")]), ("Grid", .object [])]

def gridFirst : String := "\x7b\"NetworkSettings\":\x7b\"Networks\":\x7b" ++
  "\"grid\":\x7b\"IPAddress\":\"10.0.0.2\"\x7d,\"Grid\":\x7b\x7d" ++ "\x7d\x7d\x7d"

def gridLast : String := "\x7b\"NetworkSettings\":\x7b\"Networks\":\x7b" ++
  "\"Grid\":\x7b\x7d,\"grid\":\x7b\"IPAddress\":\"10.0.0.2\"\x7d" ++ "\x7d\x7d\x7d"

theorem networks_are_taken_by_name_reversed :
    let start : World (Link Unit) := World.begin (Link.begin ())
    Gateway.engine (hubDaemon gridFirst) (.inspect "h") (Link.begin ()) =
        Gateway.engine (hubDaemon gridLast) (.inspect "h") (Link.begin ()) ∧
      (Action.findNetwork (Gateway.engine (hubDaemon gridFirst)) "hub" start).1.mode = "Grid" ∧
      (Action.containerAddress (Gateway.engine (hubDaemon gridFirst)) "hub" start).1 =
        some "10.0.0.2" := by
  intro start
  obtain ⟨same, -⟩ := networks_are_taken_by_name (hubDaemon gridFirst)
  have told : Describes (hubDaemon gridFirst) "h" (Link.begin ()) ()
      (Daemon.Surroundings.inspection ⟨[], [], [], []⟩ (.object gridNetworks)) :=
    hubDaemon_describes (by cbv)
  have told' : Describes (hubDaemon gridLast) "h" (Link.begin ()) ()
      (Daemon.Surroundings.inspection ⟨[], [], [], []⟩ (.object gridNetworks.reverse)) :=
    hubDaemon_describes (by cbv)
  have distinct : (gridNetworks.map (·.1)).Nodup := by decide
  exact ⟨(same _ gridNetworks _ distinct (List.reverse_perm _).symm _ "h" _ () told told').1,
    by decide +kernel, by decide +kernel⟩

end NodeFleet
