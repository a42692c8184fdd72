import NodeFleet.Proofs.Node.Recognition
/-!
Preview ports over several creations that share the caller's variables. A creation writes the
preview port that it picks into the variables, where the next one reads it as the caller's wish; so
the first container of a row settles the preview port of all of them.
-/

set_option autoImplicit false
namespace NodeFleet
variable {σ : Type}

/-- The container binds and exposes both ports, and its variables name the preview port. -/
structure Previews (spec : Spec) (port preview : Port) : Prop where
  bound : spec.portBindings = NodeSpec.portBindings port preview
  exposed : spec.exposedPorts = (NodeSpec.portBindings port preview).keys
  told : ∃ env proxy, spec.env = NodeSpec.envEntries env proxy ∧
    env.get? NodeSpec.previewVariable = some preview.text

/-- A creation to be made with the variables that are there by then, on the engine of then. -/
structure NodeRequest (σ : Type) where
  engine : Engine σ
  state : σ
  parent : String
  image : String
  port : String

namespace NodeRequest

def result (r : NodeRequest σ) (env : Table String) (w : World σ) : Creation × World σ :=
  Action.createContainer r.engine r.parent r.image env r.port { w with engine := r.state }

def specs (r : NodeRequest σ) (env : Table String) (w : World σ) : List Spec :=
  (r.result env w).2.submitted.drop w.submitted.length

/-- The variables and the world after requests, each with what the one before has left. -/
def after (env : Table String) (w : World σ) : List (NodeRequest σ) → Table String × World σ
  | [] => (env, w)
  | r :: rest => after (r.result env w).1.env (r.result env w).2 rest

def submissions (env : Table String) (w : World σ) :
    List (NodeRequest σ) → List (NodeRequest σ × Spec)
  | [] => []
  | r :: rest => (r.specs env w).map (fun spec => (r, spec)) ++
      submissions (r.result env w).1.env (r.result env w).2 rest

end NodeRequest

namespace NodeSpec
variable {env : Table String} {port preview : Port}

theorem get?_withMode (env : Table String) (mode : String) :
    (withMode env mode).get? previewVariable = env.get? previewVariable := by
  unfold withMode
  split
  · simp only [hostModeVariables, List.foldl_cons, List.foldl_nil]
    rw [Table.get?_insert_of_ne, Table.get?_insert_of_ne, Table.get?_insert_of_ne] <;> decide
  · rfl

theorem requestedPreview?_of_absent (absent : env.get? previewVariable = none) :
    requestedPreview? env = none := by
  rw [requestedPreview?, absent]
  rfl

theorem requestedPreview?_of_text (named : env.get? previewVariable = some preview.text) :
    requestedPreview? env = some preview := by
  rw [requestedPreview?, named]
  exact Port.ofText?_text preview

theorem get?_withPreview_of_free (free : requestedPreview? env = none) :
    (withPreview env preview).get? previewVariable = some preview.text := by
  rw [withPreview, free]
  exact Table.get?_insert_self env previewVariable preview.text

theorem withPreview_of_text (named : env.get? previewVariable = some preview.text) (p : Port) :
    withPreview env p = env := by
  rw [withPreview, requestedPreview?_of_text named]

theorem previewFor?_of_free (free : requestedPreview? env = none) :
    previewFor? env port = port.preview? := by
  rw [previewFor?, free]

theorem previewFor?_of_text (named : env.get? previewVariable = some preview.text) :
    previewFor? env port = some preview := by
  rw [previewFor?, requestedPreview?_of_text named]

theorem previews_build (name image : String) (mounts : List MountBinding) (network : NodeNetwork)
    (proxy : ProxyVariables) (told : env.get? previewVariable = some preview.text) :
    Previews (build name image env port preview mounts network proxy) port preview :=
  ⟨rfl, rfl, env, proxy, rfl, told⟩

end NodeSpec

namespace Action

def Gives {α : Type} (a : Action σ α) (P : α → Prop) : Prop := ∀ w, P (a w).1

theorem Gives.bind {α β : Type} {a : Action σ α} {k : α → Action σ β} {P : β → Prop}
    (h : ∀ x, Gives (k x) P) : Gives (a >>= k) P :=
  fun w => h (a w).1 (a w).2

variable (engine : Engine σ)

theorem failCreation_env (image : String) (env : Table String) (outcome : Outcome) :
    Gives (failCreation image env outcome : Action σ Creation) (·.env = env) :=
  fun _ => rfl

theorem launch_env (spec : Spec) (port : String) (preview : Port) (env : Table String)
    (id : String) : Gives (launch engine spec port preview env id) (·.env = env) := by
  refine .bind fun started => ?_
  cases started with
  | ok _ => exact .bind fun _ => .bind fun _ _ => rfl
  | error f =>
    refine .bind fun _ => .bind fun removed => ?_
    cases removed with
    | ok _ => exact failCreation_env _ _ _
    | error g => exact .bind fun _ => failCreation_env _ _ _

theorem submit_env (spec : Spec) (port : String) (preview : Port) (env : Table String) :
    Gives (submit engine spec port preview env) (·.env = env) := by
  refine .bind fun _ => .bind fun created => ?_
  cases created with
  | ok id => exact launch_env engine spec port preview env id
  | error f => exact .bind fun _ => failCreation_env _ _ _

end Action

namespace Creates
variable {engine : Engine σ} {parent image portText : String} {env : Table String} {w : World σ}
  {r : Creation × World σ}

theorem sends (h : Creates engine parent image env portText w r) :
    (NodeSpec.ports? env portText = none ∨ ∃ e, r.1.outcome = .error e) ∧ r.1.env = env ∧
        r.2.submitted = w.submitted ∨
      ∃ port preview mounts network proxy,
        NodeSpec.ports? env portText = some (port, preview) ∧
        r.2.parent.Knows mounts network proxy ∧
        r.1.env = NodeSpec.withMode (NodeSpec.withPreview env preview) network.mode ∧
        r.2.submitted = w.submitted ++
          [NodeSpec.build (nodeName parent portText) image r.1.env port preview mounts network
            proxy] := by
  cases h with
  | refused ports n =>
    refine .inl ⟨.inl ports, rfl, ?_⟩
    rw [Action.failCreation_submitted, Action.note_submitted]
  | forbidden port preview ports e asked mounts =>
    refine .inl ⟨.inr ⟨e, rfl⟩, rfl, ?_⟩
    rw [Action.failCreation_submitted, Fact.get_submitted mounts]
  | submitted port preview ports bindings n p asked named settled mounts network proxy given
      shared =>
    let spec := NodeSpec.build (nodeName parent portText) image given port preview bindings n p
    have left : (Action.submit engine spec portText preview given settled).1.env = given :=
      Action.submit_env engine spec portText preview given settled
    refine .inr ⟨port, preview, bindings, n, p, ports, ?_, left.trans shared, ?_⟩
    · rw [Action.submit_parent]
      exact Fact.knows_settled mounts network proxy
    · rw [left, Action.submit_submitted, Fact.submitted_settled mounts network proxy]

end Creates

namespace NodeRequest
variable {env : Table String} {preview : Port}

/-- One request: the variables stay and nothing is submitted, or one container is, and the variables
name the preview port that it exposes. -/
inductive Sends (r : NodeRequest σ) (env : Table String) (w : World σ) : Prop
  | nothing (kept : (r.result env w).1.env = env)
      (submitted : (r.result env w).2.submitted = w.submitted)
  | one (spec : Spec) (port preview : Port) (own : Port.ofText? r.port = some port)
      (picked : NodeSpec.previewFor? env port = some preview)
      (previews : Previews spec port preview)
      (named : (r.result env w).1.env.get? NodeSpec.previewVariable = some preview.text)
      (submitted : (r.result env w).2.submitted = w.submitted ++ [spec])

theorem sends (r : NodeRequest σ) (w : World σ) (settled : ∀ port preview,
    NodeSpec.ports? env r.port = some (port, preview) →
      (NodeSpec.withPreview env preview).get? NodeSpec.previewVariable = some preview.text) :
    r.Sends env w := by
  have creates := Action.createContainer_creates r.engine r.parent r.image env r.port
    { w with engine := r.state }
  obtain ⟨-, kept, submitted⟩ |
    ⟨port, preview, mounts, network, proxy, ports, -, left, submitted⟩ := creates.sends
  · exact .nothing kept submitted
  · obtain ⟨own, picked⟩ := NodeSpec.ports?_eq_some.mp ports
    have named : (r.result env w).1.env.get? NodeSpec.previewVariable = some preview.text := by
      rw [result, left, NodeSpec.get?_withMode, settled port preview ports]
    exact .one _ port preview own picked (NodeSpec.previews_build _ _ _ _ _ named) named submitted

theorem of_mem_specs {r : NodeRequest σ} {w : World σ} {spec : Spec} (sent : spec ∈ r.specs env w) :
    ∃ port preview mounts network proxy,
      NodeSpec.ports? env r.port = some (port, preview) ∧
      (r.result env w).2.parent.Knows mounts network proxy ∧
      (r.result env w).1.env =
        NodeSpec.withMode (NodeSpec.withPreview env preview) network.mode ∧
      (r.result env w).2.submitted = w.submitted ++ [spec] ∧
      spec = NodeSpec.build (nodeName r.parent r.port) r.image (r.result env w).1.env port preview
        mounts network proxy := by
  have creates := Action.createContainer_creates r.engine r.parent r.image env r.port
    { w with engine := r.state }
  obtain ⟨-, -, submitted⟩ |
    ⟨port, preview, mounts, network, proxy, ports, knows, left, submitted⟩ := creates.sends
  · change (r.result env w).2.submitted = w.submitted at submitted
    rw [specs, submitted, List.drop_length] at sent
    cases sent
  · change (r.result env w).2.submitted = w.submitted ++ _ at submitted
    rw [specs, submitted, List.drop_left] at sent
    obtain rfl := List.mem_singleton.mp sent
    exact ⟨port, preview, mounts, network, proxy, ports, knows, left, submitted, rfl⟩

theorem submissions_cons_nothing (r : NodeRequest σ) (rest : List (NodeRequest σ)) (w : World σ)
    (submitted : (r.result env w).2.submitted = w.submitted) :
    submissions env w (r :: rest) =
      submissions (r.result env w).1.env (r.result env w).2 rest := by
  rw [submissions, specs, submitted, List.drop_length]
  rfl

theorem submissions_cons_one (r : NodeRequest σ) (rest : List (NodeRequest σ)) (w : World σ)
    {spec : Spec} (submitted : (r.result env w).2.submitted = w.submitted ++ [spec]) :
    submissions env w (r :: rest) =
      (r, spec) :: submissions (r.result env w).1.env (r.result env w).2 rest := by
  rw [submissions, specs, submitted, List.drop_left]
  rfl

theorem submissions_named (requests : List (NodeRequest σ)) (w : World σ)
    (named : env.get? NodeSpec.previewVariable = some preview.text) :
    ∀ x ∈ submissions env w requests, ∃ port,
      Port.ofText? x.1.port = some port ∧ Previews x.2 port preview := by
  induction requests generalizing env w with
  | nil => simp [submissions]
  | cons r rest ih =>
    have sent : r.Sends env w := r.sends w fun port p ports => by
      obtain rfl := Option.some.inj ((NodeSpec.previewFor?_of_text named).symm.trans
        (NodeSpec.ports?_eq_some.mp ports).2)
      rw [NodeSpec.withPreview_of_text named, named]
    cases sent with
    | nothing kept submitted =>
      rw [submissions_cons_nothing r rest w submitted, kept]
      exact ih _ named
    | one spec port p own picked previews now submitted =>
      obtain rfl := Option.some.inj ((NodeSpec.previewFor?_of_text named).symm.trans picked)
      rw [submissions_cons_one r rest w submitted]
      exact List.forall_mem_cons.mpr ⟨⟨port, own, previews⟩, ih _ now⟩

theorem submitted_result (r : NodeRequest σ) (env : Table String) (w : World σ) :
    (r.result env w).2.submitted = w.submitted ++ r.specs env w := by
  have creates := Action.createContainer_creates r.engine r.parent r.image env r.port
    { w with engine := r.state }
  obtain ⟨new, grown⟩ : ∃ new, (r.result env w).2.submitted = w.submitted ++ new := by
    obtain ⟨-, -, submitted⟩ | ⟨_, _, _, _, _, -, -, -, submitted⟩ := creates.sends
    · exact ⟨[], submitted.trans (List.append_nil _).symm⟩
    · exact ⟨_, submitted⟩
  rw [specs, grown, List.drop_left]

theorem submitted_after (requests : List (NodeRequest σ)) (env : Table String) (w : World σ) :
    (after env w requests).2.submitted =
      w.submitted ++ (submissions env w requests).map (·.2) := by
  induction requests generalizing env w with
  | nil => exact (List.append_nil _).symm
  | cons r rest ih =>
    have own : ((r.specs env w).map fun spec => (r, spec)).map (·.2) = r.specs env w := by
      rw [List.map_map]
      exact List.map_id _
    rw [after, ih, submissions, submitted_result, List.map_append, own, List.append_assoc]

theorem submissions_absent (requests : List (NodeRequest σ)) (w : World σ)
    (absent : env.get? NodeSpec.previewVariable = none) :
    submissions env w requests = [] ∨ ∃ first port preview rest,
      submissions env w requests = first :: rest ∧ Port.ofText? first.1.port = some port ∧
        port.preview? = some preview ∧ ∀ x ∈ first :: rest, ∃ p,
          Port.ofText? x.1.port = some p ∧ Previews x.2 p preview := by
  induction requests generalizing env w with
  | nil => exact .inl rfl
  | cons r rest ih =>
    have free := NodeSpec.requestedPreview?_of_absent absent
    have sent : r.Sends env w := r.sends w fun port p _ => NodeSpec.get?_withPreview_of_free free
    cases sent with
    | nothing kept submitted =>
      rw [submissions_cons_nothing r rest w submitted, kept]
      exact ih _ absent
    | one spec port preview own picked previews now submitted =>
      rw [NodeSpec.previewFor?_of_free free] at picked
      refine .inr ⟨(r, spec), port, preview, _, submissions_cons_one r rest w submitted, own,
        picked, ?_⟩
      exact List.forall_mem_cons.mpr ⟨⟨port, own, previews⟩, submissions_named rest _ now⟩

end NodeRequest

/-- Of creations that share the caller's variables, none of which named a preview port at first, the
first that submits a container picks the preview port at a fixed distance from its own port. It
stays in the variables, so all containers after it expose and name that same one. -/
theorem first_preview_port_stays (requests : List (NodeRequest σ)) (env : Table String)
    (w : World σ) (absent : env.get? NodeSpec.previewVariable = none) :
    let sent := NodeRequest.submissions env w requests
    (NodeRequest.after env w requests).2.submitted = w.submitted ++ sent.map (·.2) ∧
      ∀ first rest, sent = first :: rest → ∃ port preview,
        Port.ofText? first.1.port = some port ∧
        preview.number = port.number + Port.previewGap ∧
        ∀ x ∈ sent, ∃ own, Port.ofText? x.1.port = some own ∧ Previews x.2 own preview := by
  intro sent
  refine ⟨NodeRequest.submitted_after requests env w, ?_⟩
  rintro first rest split
  obtain none | ⟨first', port, preview, rest', split', own, picked, all⟩ :=
    NodeRequest.submissions_absent requests w absent
  · cases split.symm.trans none
  · obtain ⟨rfl, rfl⟩ := List.cons.inj (split.symm.trans split')
    refine ⟨port, preview, own, Port.preview?_eq_some.mp picked, fun x mem => all x ?_⟩
    rwa [← split]

def shelfRequest (port : String) : NodeRequest (List Summary) :=
  ⟨shelf, [], "hub", "node:latest", port⟩

def twoShelved : List (NodeRequest (List Summary) × Spec) :=
  NodeRequest.submissions [] (World.begin []) [shelfRequest "5555", shelfRequest "5556"]

theorem first_preview_port_stays_shelved : ∃ preview : Port, preview.number = 15555 ∧
    ∀ x ∈ twoShelved, ∃ own, Port.ofText? x.1.port = some own ∧ Previews x.2 own preview := by
  obtain ⟨-, first⟩ := first_preview_port_stays [shelfRequest "5555", shelfRequest "5556"] []
    (World.begin []) rfl
  obtain ⟨port, preview, own, gap, all⟩ := first _ _ rfl
  refine ⟨preview, ?_, all⟩
  obtain rfl : port = ⟨5555, by decide⟩ := Option.some.inj (own.symm.trans rfl)
  exact gap

/-- The second of two nodes asks for the preview port of the first, not for the one at the distance
from its own port. -/
theorem not_all_preview_ports_differ :
    (¬ ∀ x ∈ twoShelved, ∃ own preview, Port.ofText? x.1.port = some own ∧
      own.preview? = some preview ∧ Previews x.2 own preview) ∧
    twoShelved.map (fun x => (x.1.port, x.2.exposedPorts, x.2.env)) =
      [("5555", ["15555/tcp", "5555/tcp"], ["NOVNC_PORT=15555"]),
        ("5556", ["15555/tcp", "5556/tcp"], ["NOVNC_PORT=15555"])] := by
  have second : ∃ x ∈ twoShelved, x.1.port = "5556" ∧
      x.2.exposedPorts = ["15555/tcp", "5556/tcp"] :=
    ⟨_, List.mem_of_getElem? (i := 1) rfl, rfl, by decide +kernel⟩
  refine ⟨fun all => ?_, by decide +kernel⟩
  obtain ⟨x, mem, port, exposed⟩ := second
  obtain ⟨own, preview, named, gap, previews⟩ := all x mem
  rw [port] at named
  obtain rfl : own = ⟨5556, by decide⟩ := Option.some.inj (named.symm.trans rfl)
  obtain rfl : preview = ⟨15556, by decide⟩ := Option.some.inj (gap.symm.trans rfl)
  rw [previews.exposed] at exposed
  exact absurd exposed (by decide +kernel)

end NodeFleet
