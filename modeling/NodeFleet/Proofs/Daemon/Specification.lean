import Mathlib.Tactic.Tauto
import NodeFleet.Daemon.Gateway

set_option autoImplicit false
namespace NodeFleet

/-- The same, apart from the order and the repetition of exposed ports. -/
def Spec.Agrees (a b : Spec) : Prop :=
  { a with exposedPorts := b.exposedPorts } = b ∧
    ∀ port, port ∈ a.exposedPorts ↔ port ∈ b.exposedPorts

namespace Json

theorem ofTexts_inj {texts others : List String} :
    ofTexts texts = ofTexts others ↔ texts = others :=
  ⟨ofTexts_injective, congrArg ofTexts⟩

theorem normal_ofTexts (texts : List String) : (ofTexts texts).normal = ofTexts texts := by
  have kept : normalItems (texts.map .text) = texts.map .text := by
    induction texts with
    | nil => rfl
    | cons s r ih => rw [List.map_cons, normalItems, normal.eq_def, ih]
  rw [ofTexts, normal, kept]

theorem normalFields_of_forall {fields : List (String × Json)}
    (h : ∀ e ∈ fields, e.2.normal = e.2) : normalFields fields = fields := by
  induction fields with
  | nil => rfl
  | cons e r ih =>
    obtain ⟨k, v⟩ := e
    obtain ⟨own, rest⟩ := List.forall_mem_cons.mp h
    rw [normalFields, own, ih rest]

theorem normal_object {t : Table Json} (ordered : t.Increasing)
    (h : ∀ e ∈ t, e.2.normal = e.2) : (object t).normal = object t := by
  rw [normal, normalFields_of_forall h, Table.ofList_of_increasing ordered]

end Json

namespace Request
variable {a b spec : Spec}

theorem get?_exposed (ports : List String) (port : String) :
    (Table.ofList (ports.map fun p => (p, Json.object []))).get? port =
      if port ∈ ports then some (.object []) else none := by
  rw [Table.get?_ofList, ← List.map_reverse, Table.get?_map_pair]
  simp only [List.mem_reverse]

theorem exposedPorts_eq_iff {ports others : List String} :
    exposedPorts ports = exposedPorts others ↔ ∀ port, port ∈ ports ↔ port ∈ others := by
  have mem_iff (ports : List String) (port : String) :
      (Table.ofList (ports.map fun p => (p, Json.object []))).get? port = some (.object []) ↔
        port ∈ ports := by
    rw [get?_exposed, Option.ite_none_right_eq_some, and_iff_left rfl]
  rw [exposedPorts, exposedPorts, Json.object.injEq]
  constructor
  · intro same port
    rw [← mem_iff ports, same, mem_iff others]
  · intro same
    refine (Table.increasing_ofList _).ext (Table.increasing_ofList _) fun port => ?_
    rw [get?_exposed, get?_exposed]
    simp only [same port]

theorem portBindingJson_injective {x y : PortBinding}
    (same : portBindingJson x = portBindingJson y) : x = y := by
  cases x
  cases y
  simp_all [portBindingJson]

theorem normal_portBindingJson (b : PortBinding) :
    (portBindingJson b).normal = portBindingJson b := by
  have fields : (Json.object [("HostIp", .text b.hostIp), ("HostPort", .text b.hostPort)]).normal =
      .object [("HostIp", .text b.hostIp), ("HostPort", .text b.hostPort)] := by
    have ordered : ["HostIp", "HostPort"].Pairwise (· < ·) := by decide
    refine Json.normal_object ordered ?_
    simp [Json.normal]
  rw [portBindingJson, Json.normal, Json.normalItems, fields, Json.normalItems]

theorem normal_exposedPorts (ports : List String) :
    (exposedPorts ports).normal = exposedPorts ports := by
  refine Json.normal_object (Table.increasing_ofList _) ?_
  rintro ⟨port, v⟩ mem
  have found := (Table.increasing_ofList _).get?_of_mem mem
  rw [get?_exposed, Option.ite_none_right_eq_some] at found
  obtain rfl := Option.some.inj found.2
  rfl

theorem normal_portBindings {bindings : Table PortBinding} (ordered : bindings.Increasing) :
    (Json.object (bindings.map fun p => (p.1, portBindingJson p.2))).normal =
      .object (bindings.map fun p => (p.1, portBindingJson p.2)) := by
  refine Json.normal_object ?_ fun e mem => ?_
  · rw [Table.Increasing, Table.keys, List.map_map]
    exact ordered
  · obtain ⟨p, -, rfl⟩ := List.mem_map.mp mem
    exact normal_portBindingJson p.2

theorem normal_hostConfig (ordered : spec.portBindings.Increasing) :
    (hostConfig spec).normal = .object [("AutoRemove", .bool spec.autoRemove),
      ("Binds", Json.ofTexts spec.binds), ("ExtraHosts", Json.ofTexts spec.extraHosts),
      ("NetworkMode", .text spec.networkMode),
      ("PortBindings", .object (spec.portBindings.map fun p => (p.1, portBindingJson p.2))),
      ("Privileged", .bool spec.privileged)] := by
  rw [hostConfig, Json.normal]
  simp only [Json.normalFields, Json.normal_ofTexts, normal_portBindings ordered]
  simp only [Json.normal, Table.ofList, List.foldl_cons, List.foldl_nil, Table.insert,
    String.reduceLT, String.reduceEq, ↓reduceIte]

theorem normal_creationBody (spec : Spec) :
    (creationBody spec).normal = .object [("Env", Json.ofTexts spec.env),
      ("ExposedPorts", exposedPorts spec.exposedPorts), ("HostConfig", (hostConfig spec).normal),
      ("Image", .text spec.image)] := by
  rw [creationBody, Json.normal]
  simp only [Json.normalFields, Json.normal_ofTexts, normal_exposedPorts]
  simp only [Json.normal, Table.ofList, List.foldl_cons, List.foldl_nil, Table.insert,
    String.reduceLT, String.reduceEq, ↓reduceIte]

theorem portBindings_inj {bindings others : Table PortBinding} :
    bindings.map (fun p => (p.1, portBindingJson p.2)) =
      others.map (fun p => (p.1, portBindingJson p.2)) ↔ bindings = others := by
  refine List.map_inj_right ?_
  rintro ⟨port, x⟩ ⟨port', y⟩ same
  obtain ⟨own, bound⟩ := Prod.mk.inj same
  exact Prod.ext own (portBindingJson_injective bound)

/-- Two requests that differ at most in the order of fields. -/
structure Alike (x y : Request) : Prop where
  method : x.method = y.method
  path : x.path = y.path
  query : x.query = y.query
  body : x.body.map Json.normal = y.body.map Json.normal

theorem create_eq_iff : create a = create b ↔ a.Agrees b := by
  cases a
  cases b
  simp only [create, creationBody, hostConfig, Spec.Agrees, Request.mk.injEq, Option.some.injEq,
    Json.object.injEq, List.cons.injEq, Prod.mk.injEq, Spec.mk.injEq, exposedPorts_eq_iff,
    Json.text.injEq, Json.bool.injEq, Parameter.text.injEq, Json.ofTexts_inj, portBindings_inj]
  tauto

theorem alike_create_iff (ordered : a.portBindings.Increasing)
    (ordered' : b.portBindings.Increasing) : Alike (create a) (create b) ↔ a.Agrees b := by
  refine ⟨fun alike => ?_, fun agrees => create_eq_iff.mpr agrees ▸ ⟨rfl, rfl, rfl, rfl⟩⟩
  have query := alike.query
  have body : (creationBody a).normal = (creationBody b).normal := Option.some.inj alike.body
  rw [normal_creationBody, normal_creationBody, normal_hostConfig ordered,
    normal_hostConfig ordered'] at body
  cases a
  cases b
  simp only [create, Spec.Agrees, Json.object.injEq, List.cons.injEq, Prod.mk.injEq,
    Spec.mk.injEq, exposedPorts_eq_iff, Json.text.injEq, Json.bool.injEq, Parameter.text.injEq,
    Json.ofTexts_inj, portBindings_inj] at query body ⊢
  tauto

end Request

/-- The daemon takes the request, whatever it makes of it. -/
def Takes {τ : Type} (transport : Transport τ) (request : Request) (link : Link τ) : Prop :=
  ∃ r wire, transport request link.wire = (.answered r, wire)

namespace Gateway
variable {τ α : Type} {transport : Transport τ} {request : Request} {link : Link τ}

theorem ask_requests (taken : Takes transport request link) :
    (ask transport request link).2.requests = link.requests ++ [request] := by
  obtain ⟨r, wire, answered⟩ := taken
  rw [ask, answered]

theorem bind_requests {β : Type} (a : Exchange τ α) {k : α → Exchange τ β}
    (silent : ∀ x link, (k x link).2.requests = link.requests) :
    ((a >>= k) link).2.requests = (a link).2.requests := by
  cases made : a link with
  | mk outcome after =>
    cases outcome with
    | error f => rw [bind_of_error made]
    | ok x => rw [bind_of_ok made, silent]

theorem askFor_requests (decode : Json → Option α) (taken : Takes transport request link) :
    (askFor transport request decode link).2.requests = link.requests ++ [request] := by
  rw [askFor, bind_requests _ fun _ _ => rfl, ask_requests taken]

theorem noteAll_requests (warnings : List String) (link : Link τ) :
    ((warnings.forM fun w => note (.creationWarning w) : Exchange τ Unit) link).2.requests =
      link.requests := by
  induction warnings generalizing link with
  | nil => rfl
  | cons w r ih =>
    rw [List.forM, bind_requests _ fun _ => ih]
    rfl

theorem create_requests {spec : Spec} (taken : Takes transport (.create spec) link) :
    (engine transport (.create spec) link).2.requests = link.requests ++ [.create spec] := by
  change (create transport spec link).2.requests = _
  rw [create, bind_requests, askFor_requests Daemon.creation? taken]
  intro answer link
  exact (bind_requests _ fun _ _ => rfl).trans (noteAll_requests answer.2 link)

end Gateway

/-- From what is sent to create a container its specification can be told, but of the ports that are
only exposed neither the order nor a repetition, and this from the values of the fields alone. -/
theorem creation_request_tells_the_specification {τ : Type} (transport : Transport τ)
    (link : Link τ) (a b : Spec) :
    let engine := Gateway.engine transport
    (Request.create a = Request.create b ↔ a.Agrees b) ∧
      (a.portBindings.Increasing → b.portBindings.Increasing →
        (Request.Alike (.create a) (.create b) ↔ a.Agrees b)) ∧
      (Takes transport (.create a) link → Takes transport (.create b) link →
        ((engine (.create a) link).2.requests = (engine (.create b) link).2.requests ↔
          a.Agrees b)) := by
  intro engine
  refine ⟨Request.create_eq_iff, Request.alike_create_iff, fun taken taken' => ?_⟩
  change (Gateway.engine transport (.create a) link).2.requests =
    (Gateway.engine transport (.create b) link).2.requests ↔ _
  rw [Gateway.create_requests taken, Gateway.create_requests taken', List.append_cancel_left_eq,
    List.cons.injEq, and_iff_left rfl, Request.create_eq_iff]

def nodeSpec : Spec where
  name := "hub_40001"
  image := "node:latest"
  env := ["A=1", "B=2"]
  exposedPorts := ["40001/tcp", "50001/tcp"]
  binds := ["/dev/shm:/dev/shm"]
  portBindings := [("40001/tcp", ⟨"", "40001"⟩), ("50001/tcp", ⟨"", "50001"⟩)]
  networkMode := "default"
  extraHosts := []
  autoRemove := true
  privileged := true

theorem creation_request_tells_the_specification_node :
    let other := { nodeSpec with exposedPorts := ["50001/tcp", "40001/tcp", "50001/tcp"] }
    let swapped := { nodeSpec with env := ["B=2", "A=1"] }
    let send (spec : Spec) := (Gateway.engine Transport.ofList (.create spec)
      (Link.begin [⟨201, [], false⟩])).2.requests
    send nodeSpec = send other ∧ send nodeSpec ≠ send swapped ∧
      ¬ Request.Alike (.create nodeSpec) (.create swapped) := by
  intro other swapped send
  have taken (spec : Spec) : Takes Transport.ofList (.create spec)
      (Link.begin [⟨201, [], false⟩]) := ⟨_, _, rfl⟩
  have agrees : nodeSpec.Agrees other := by
    refine ⟨rfl, fun port => ?_⟩
    simp only [nodeSpec, other, List.mem_cons, List.not_mem_nil, or_false]
    tauto
  have ordered : ["40001/tcp", "50001/tcp"].Pairwise (· < ·) := by decide
  have differs : ¬ nodeSpec.Agrees swapped := fun h => absurd (congrArg Spec.env h.1) (by decide)
  obtain ⟨-, -, same⟩ := creation_request_tells_the_specification Transport.ofList
    (Link.begin [⟨201, [], false⟩]) nodeSpec other
  obtain ⟨-, alike, sent⟩ := creation_request_tells_the_specification Transport.ofList
    (Link.begin [⟨201, [], false⟩]) nodeSpec swapped
  exact ⟨(same (taken _) (taken _)).mpr agrees, mt (sent (taken _) (taken _)).mp differs,
    mt (alike ordered ordered).mp differs⟩

end NodeFleet
