import NodeFleet.Proofs.Node.Preview
import NodeFleet.Proofs.Node.Session

set_option autoImplicit false
namespace NodeFleet
variable {σ : Type}

namespace NodeSpec
variable {env : Table String} {port preview : Port}

theorem withMode_twice (env : Table String) (mode : String) :
    withMode (withMode env mode) mode = withMode env mode := by
  cases shared : NodeNetwork.isHostMode mode with
  | false => simp only [withMode, shared, Bool.false_eq_true, if_false]
  | true =>
    simp only [withMode, shared, if_true]
    exact Table.foldl_insert_twice hostModeVariables env

theorem requestedPreview?_afterwards (picked : previewFor? env port = some preview)
    (mode : String) :
    requestedPreview? (withMode (withPreview env preview) mode) = some preview := by
  rw [requestedPreview?, get?_withMode]
  cases asked : requestedPreview? env with
  | some p =>
    rw [previewFor?, asked] at picked
    obtain rfl := Option.some.inj picked
    rw [withPreview, asked]
    exact asked
  | none => exact requestedPreview?_of_text (get?_withPreview_of_free asked)

theorem previewFor?_afterwards (picked : previewFor? env port = some preview) (mode : String) :
    previewFor? (withMode (withPreview env preview) mode) port = some preview := by
  rw [previewFor?, requestedPreview?_afterwards picked]

theorem given_twice (picked : previewFor? env port = some preview) (mode : String) :
    withMode (withPreview (withMode (withPreview env preview) mode) preview) mode =
      withMode (withPreview env preview) mode := by
  have kept : withPreview (withMode (withPreview env preview) mode) preview =
      withMode (withPreview env preview) mode := by
    rw [withPreview, requestedPreview?_afterwards picked]
  rw [kept, withMode_twice]

end NodeSpec

/-- Once a container was submitted for a request, the same request with the variables as they are
then submits that container again and leaves the variables. In the meantime anything may have been
done with other engines, and the first container may have been created, started or neither. -/
theorem retry_submits_the_same (r : NodeRequest σ) (env : Table String) (w : World σ) (spec : Spec)
    (sent : spec ∈ r.specs env w) (turns : List (Turn σ)) (engine : Engine σ) (state : σ) :
    let first := r.result env w
    let meanwhile := Session.after first.2 turns
    let second := NodeRequest.result ⟨engine, state, r.parent, r.image, r.port⟩ first.1.env
      meanwhile
    first.2.submitted = w.submitted ++ [spec] ∧
      second.2.submitted = meanwhile.submitted ++ [spec] ∧ second.1.env = first.1.env := by
  intro first meanwhile second
  have specs : r.specs env w = first.2.submitted.drop w.submitted.length := rfl
  obtain ⟨-, -, submitted⟩ |
    ⟨port, preview, mounts, network, proxy, ports, knows, left, submitted⟩ :=
    (Action.createContainer_creates r.engine r.parent r.image env r.port
      { w with engine := r.state }).sends
  · change first.2.submitted = w.submitted at submitted
    rw [specs, submitted, List.drop_length] at sent
    cases sent
  let built := NodeSpec.build (nodeName r.parent r.port) r.image first.1.env port preview mounts
    network proxy
  change first.2.submitted = w.submitted ++ [built] at submitted
  change first.1.env = _ at left
  obtain ⟨own, picked⟩ := NodeSpec.ports?_eq_some.mp ports
  obtain rfl : spec = built := by
    rw [specs, submitted, List.drop_left] at sent
    exact List.mem_singleton.mp sent
  -- what the second creation works with
  have again : NodeSpec.ports? first.1.env r.port = some (port, preview) := by
    rw [left]
    exact NodeSpec.ports?_eq_some.mpr ⟨own, NodeSpec.previewFor?_afterwards picked network.mode⟩
  have kept : NodeSpec.withMode (NodeSpec.withPreview first.1.env preview) network.mode =
      first.1.env := by
    rw [left]
    exact NodeSpec.given_twice picked network.mode
  have still : meanwhile.parent.Knows mounts network proxy :=
    knows.mono (Session.within_after turns first.2)
  have run := (Action.createContainer_creates engine r.parent r.image first.1.env r.port
    { meanwhile with engine := state }).of_known again still
  change second = _ at run
  rw [kept] at run
  refine ⟨submitted, ?_, ?_⟩
  · rw [run, Action.submit_submitted]
    rfl
  · rw [run]
    exact Action.submit_env engine built r.port preview first.1.env _

def hostShelf : Engine Unit := fun c _ =>
  match c with
  | .listContainers _ => (.ok [⟨"hub-id", ["/hub"], "grid:latest", "running"⟩], ())
  | .inspect id => (.ok ⟨id, "/hub", [], [], [], "", [⟨"host", ""⟩]⟩, ())
  | .create spec => (.ok spec.name, ())
  | .exec .. => (.ok none, ())
  | .archive .. => (.ok [], ())
  | .listImages _ => (.ok [], ())
  | .info => (.ok ⟨"station"⟩, ())
  | .start _ | .stop .. | .remove _ => (.error (.unavailable "busy"), ())

def deadEngine : Engine Unit := fun _ _ => (.error (.unavailable "gone"), ())

def hubRequest (engine : Engine Unit) : NodeRequest Unit :=
  ⟨engine, (), "hub", "node:latest", "5555"⟩

def hostStart : Creation × World Unit :=
  (hubRequest hostShelf).result [("NOVNC_PORT", "soon")] (World.begin ())

theorem retry_submits_the_same_on_host :
    let second := (hubRequest deadEngine).result hostStart.1.env hostStart.2
    hostStart.1.outcome = .ok (.failed "hub_5555") ∧ ∃ spec, spec.networkMode = "host" ∧
      hostStart.2.submitted = [spec] ∧ second.2.submitted = [spec, spec] ∧
      second.1.env = hostStart.1.env := by
  intro second
  have host : "host" ∈ ((hubRequest hostShelf).specs [("NOVNC_PORT", "soon")]
      (World.begin ())).map (·.networkMode) := by decide +kernel
  obtain ⟨spec, sent, mode⟩ := List.mem_map.mp host
  obtain ⟨one, two, kept⟩ := retry_submits_the_same (hubRequest hostShelf)
    [("NOVNC_PORT", "soon")] (World.begin ()) spec sent [] deadEngine ()
  exact ⟨rfl, spec, mode, one, two.trans (congrArg (· ++ [spec]) one), kept⟩

end NodeFleet
