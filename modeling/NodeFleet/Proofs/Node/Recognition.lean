import NodeFleet.Node.Upkeep
import NodeFleet.Proofs.Node.Submission

set_option autoImplicit false
namespace NodeFleet
variable {σ τ : Type}

theorem idByName?_of_only {listing : List Summary} {name : String} {s : Summary}
    (listed : s ∈ listing) (named : s.names.head? = some (listedName name))
    (only : ∀ t ∈ listing, t.answersTo (listedName name) → t.id = s.id) :
    idByName? listing name = some s.id := by
  have answers : s.answersTo (listedName name) = true := by
    cases names : s.names with
    | nil => simp [names] at named
    | cons n r =>
      obtain rfl : n = listedName name := by simpa [names] using named
      simp only [Summary.answersTo, names]
      exact sameIgnoringCase_refl _
  cases found : listing.find? (·.answersTo (listedName name)) with
  | none => exact absurd answers (List.find?_eq_none.mp found s listed)
  | some t =>
    have answers' : t.answersTo (listedName name) := by simpa using List.find?_some found
    rw [idByName?, found, Option.map_some, only t (List.mem_of_find?_eq_some found) answers']

namespace Action

theorem containerId_calls (engine : Engine σ) (name : String) (w : World σ) :
    (containerId engine name w).2.calls = w.calls ++ [.listContainers true] := by
  obtain ⟨events, passes, made⟩ := containerId_passes engine name w
  rw [passes.toLeads.calls, made]

theorem note_calls (n : Note) (w : World σ) : (note n w).2.calls = w.calls := by
  rw [World.calls, note_trace, List.filterMap_append]
  exact List.append_nil _

section
variable (engine : Engine σ) (parent : String) {url : Url} {p q : Port}

theorem registerNode_of_preview (port : url.effectivePort? = some p) (room : p.preview? = some q)
    (w : World σ) :
    (registerNode engine parent url w).1 =
        ⟨(containerId engine (nodeName parent p.text) w).1, some q⟩ ∧
      (registerNode engine parent url w).2.calls = w.calls ++ [.listContainers true] := by
  let name := nodeName parent p.text
  cases given : url.port with
  | some g =>
    have run : registerNode engine parent url w =
        (⟨(containerId engine name w).1, some q⟩, (containerId engine name w).2) := by
      simp only [registerNode, port, given, room, Option.isNone_some]
      rfl
    rw [run]
    exact ⟨rfl, containerId_calls engine name w⟩
  | none =>
    let w' := (note (.defaultPortAssumed p.number) w).2
    have run : registerNode engine parent url w =
        (⟨(containerId engine name w').1, some q⟩, (containerId engine name w').2) := by
      simp only [registerNode, port, given, room, Option.isNone_none]
      rfl
    have same : (containerId engine name w').1 = (containerId engine name w).1 := by
      rw [containerId_answer, containerId_answer, note_engine]
    rw [run]
    refine ⟨by rw [same], ?_⟩
    rw [containerId_calls, note_calls]

theorem registerNode_of_no_preview (port : url.effectivePort? = some p)
    (room : p.preview? = none) (w : World σ) :
    (registerNode engine parent url w).1 = .unknown ∧
      (registerNode engine parent url w).2.calls = w.calls := by
  cases given : url.port with
  | some g =>
    have run : registerNode engine parent url w =
        (.unknown, (note (.noPreviewPort p.number) w).2) := by
      simp only [registerNode, port, given, room, Option.isNone_some]
      rfl
    rw [run]
    exact ⟨rfl, note_calls _ w⟩
  | none =>
    let w' := (note (.defaultPortAssumed p.number) w).2
    have run : registerNode engine parent url w =
        (.unknown, (note (.noPreviewPort p.number) w').2) := by
      simp only [registerNode, port, given, room, Option.isNone_none]
      rfl
    rw [run]
    exact ⟨rfl, (note_calls _ w').trans (note_calls _ w)⟩

end
end Action

theorem Submission.containerName_of_ok {engine : Engine σ} {spec : Spec} {portText : String}
    {state : σ} {calls : List Call} {outcome : Outcome} {sample : Sample} {status : CreationStatus}
    (h : Submission engine spec portText state calls outcome sample) (ok : outcome = .ok status) :
    status.containerName = spec.name := by
  cases h with
  | uncreated f create =>
    obtain rfl := Except.ok.inj ok
    rfl
  | unstarted id f create start =>
    obtain rfl := Except.ok.inj ok
    rfl
  | created id create start =>
    obtain rfl := Except.ok.inj ok
    rfl

theorem Creates.submits_of_success {engine : Engine σ} {parent image : String}
    {env : Table String} {portText : String} {w : World σ} {r : Creation × World σ}
    {status : CreationStatus} (h : Creates engine parent image env portText w r)
    (outcome : r.1.outcome = .ok status) (success : status.success = true) : ∃ spec,
      r.2.submitted = w.submitted ++ [spec] ∧ spec.name = status.containerName ∧
        status.containerName = nodeName parent portText := by
  cases h with
  | refused ports n =>
    obtain rfl := Except.ok.inj outcome
    cases success
  | forbidden port preview ports e asked mounts => cases outcome
  | submitted port preview ports bindings n p asked named settled mounts network proxy given =>
    let spec := NodeSpec.build (nodeName parent portText) image given port preview bindings n p
    obtain ⟨events, sample, -, -, submission⟩ :=
      Action.submit_course engine spec portText preview given settled
    have answered := submission.containerName_of_ok outcome
    refine ⟨spec, ?_, answered.symm, answered⟩
    rw [Action.submit_submitted, Fact.submitted_settled mounts network proxy]

/-- A node on port `p` that was created is recognised wherever and whenever it registers with that
port, if only the port leaves room for a preview port. -/
theorem created_node_is_recognised (engine : Engine σ) (parent image : String)
    (env : Table String) (p : Port) (w : World σ) (status : CreationStatus)
    (outcome : (Action.createContainer engine parent image env p.text w).1.outcome = .ok status)
    (success : status.success = true) :
    Port.ofText? p.text = some p ∧ ∃ spec,
      (Action.createContainer engine parent image env p.text w).2.submitted =
        w.submitted ++ [spec] ∧
      spec.name = status.containerName ∧
      ∀ (other : Engine τ) (url : Url) (now : World τ), url.effectivePort? = some p →
        let registered := Action.registerNode other parent url now
        (p.number + Port.previewGap ≤ maxU16 →
          registered.1.containerId = (Action.containerId other spec.name now).1 ∧
          registered.2.calls = now.calls ++ [.listContainers true] ∧
          ∀ (listing : List Summary) (s : Summary),
            (other (.listContainers true) now.engine).1 = .ok listing → s ∈ listing →
            s.names.head? = some (listedName spec.name) →
            (∀ t ∈ listing, t.answersTo (listedName spec.name) → t.id = s.id) →
            registered.1.containerId = some s.id) ∧
        (maxU16 < p.number + Port.previewGap →
          registered.1 = .unknown ∧ registered.2.calls = now.calls) := by
  obtain ⟨spec, submitted, named, name⟩ :=
    (Action.createContainer_creates engine parent image env p.text w).submits_of_success outcome
      success
  refine ⟨Port.ofText?_text p, spec, submitted, named, ?_⟩
  intro other url now port registered
  refine ⟨fun room => ?_, fun none => ?_⟩
  · have preview : p.preview? = some ⟨p.number + Port.previewGap, room⟩ :=
      Port.preview?_eq_some.mpr rfl
    obtain ⟨answer, calls⟩ :=
      Action.registerNode_of_preview other parent port preview now
    have looked : registered.1.containerId = (Action.containerId other spec.name now).1 := by
      rw [named, name]
      exact congrArg Registration.containerId answer
    refine ⟨looked, calls, fun listing s listed mem head only => ?_⟩
    rw [looked, Action.containerId_answer, listed]
    exact idByName?_of_only mem head only
  · exact Action.registerNode_of_no_preview other parent port (Port.preview?_eq_none.mpr none) now

def shelf : Engine (List Summary) := fun c listing =>
  match c with
  | .listContainers _ => (.ok listing, listing)
  | .inspect id => (.error (.notFound id), listing)
  | .create spec =>
    (.ok spec.name, listing ++ [⟨spec.name, [listedName spec.name], spec.image, "running"⟩])
  | .start _ | .stop .. | .remove _ => (.ok (), listing)
  | .exec .. => (.ok none, listing)
  | .archive .. => (.ok [], listing)
  | .listImages _ => (.ok [], listing)
  | .info => (.ok ⟨"host"⟩, listing)

def shelved (env : Table String) (port : String) : Creation × World (List Summary) :=
  Action.createContainer shelf "hub" "node:latest" env port (World.begin [])

def portUrl (n : Nat) (h : n ≤ maxU16) : Url := ⟨"http", some ⟨n, h⟩⟩

theorem created_node_is_recognised_plain :
    (shelved [] "5555").1.outcome = .ok (.created "hub_5555" "5555") ∧
      (Action.registerNode shelf "hub" (portUrl 5555 (by decide))
        (shelved [] "5555").2).1.containerId = some "hub_5555" := by
  let p : Port := ⟨5555, by decide⟩
  have text : p.text = "5555" := by decide +kernel
  have outcome : (shelved [] "5555").1.outcome = .ok (.created "hub_5555" "5555") := rfl
  have made : (shelved [] p.text).1.outcome = .ok (.created "hub_5555" "5555") := by
    rw [text]
    exact outcome
  obtain ⟨-, spec, -, named, registers⟩ :=
    created_node_is_recognised (τ := List Summary) shelf "hub" "node:latest" [] p (World.begin [])
      (.created "hub_5555" "5555") made rfl
  have called : spec.name = "hub_5555" := named
  obtain ⟨recognised, -⟩ := registers shelf (portUrl 5555 (by decide)) (shelved [] "5555").2 rfl
  obtain ⟨-, -, found⟩ := recognised (by decide)
  refine ⟨outcome, found [⟨"hub_5555", ["/hub_5555"], "node:latest", "running"⟩]
    ⟨"hub_5555", ["/hub_5555"], "node:latest", "running"⟩ rfl (by simp) ?_ ?_⟩
  · rw [called]
    rfl
  · intro t mem _
    rw [List.mem_singleton.mp mem]

/-- With another preview port a node may sit so high that it is not recognised, and a port with a
sign or with leading zeros makes a name that no port of a URL leads back to. -/
theorem not_every_created_node_is_recognised :
    (shelved [("NOVNC_PORT", "7000")] "60000").1.outcome =
        .ok (.created "hub_60000" "60000") ∧
      (Action.containerId shelf "hub_60000" (shelved [("NOVNC_PORT", "7000")] "60000").2).1 =
        some "hub_60000" ∧
      (Action.registerNode shelf "hub" (portUrl 60000 (by decide))
        (shelved [("NOVNC_PORT", "7000")] "60000").2).1 = .unknown ∧
      (shelved [] "+8080").1.outcome = .ok (.created "hub_+8080" "+8080") ∧
      (Action.containerId shelf "hub_+8080" (shelved [] "+8080").2).1 = some "hub_+8080" ∧
      (Action.registerNode shelf "hub" (portUrl 8080 (by decide))
        (shelved [] "+8080").2).1.containerId = none :=
  ⟨rfl, rfl, rfl, rfl, rfl, rfl⟩

end NodeFleet
