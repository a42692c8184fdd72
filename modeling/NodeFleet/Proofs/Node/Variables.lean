import NodeFleet.Proofs.Node.Bindings
import NodeFleet.Proofs.Text.ByteOrder

set_option autoImplicit false
namespace NodeFleet
variable {σ : Type}

namespace NodeSpec
variable {env : Table String} {port preview : Port}

/-- What the variables hold after a creation that came as far as the container. -/
def afterwards? (env : Table String) (port : Port) (mode key : String) : Option String :=
  if sameIgnoringCase mode "host" ∧ key ∈ ["SELENIUM_HUB_HOST", "SELENIUM_NODE_HOST"] then
    some "localhost"
  else if sameIgnoringCase mode "host" ∧ key = "PICK_ALL_RANDOM_PORTS" then some "true"
  else if key = "NOVNC_PORT" ∧ requestedPreview? env = none then
    some (toString (port.number + 10000))
  else env.get? key

def flattened (held : List (String × String)) : List String :=
  ((held.map (·.1)).mergeSort (· ≤ ·)).map fun key =>
    key ++ "=" ++ (Table.get? held key).getD ""

theorem get?_withPreview (picked : previewFor? env port = some preview) (key : String) :
    (withPreview env preview).get? key =
      if key = "NOVNC_PORT" ∧ requestedPreview? env = none then
        some (toString (port.number + 10000))
      else env.get? key := by
  rw [withPreview]
  cases asked : requestedPreview? env with
  | some p => simp
  | none =>
    rw [previewFor?_of_free asked] at picked
    have gap : preview.number = port.number + 10000 := Port.preview?_eq_some.mp picked
    dsimp only
    rw [Table.get?_insert, Port.text, gap]
    simp [previewVariable]

theorem get?_given (picked : previewFor? env port = some preview) (mode key : String) :
    (withMode (withPreview env preview) mode).get? key = afterwards? env port mode key := by
  have named := get?_withPreview picked key
  rw [afterwards?, withMode, ← named]
  by_cases shared : NodeNetwork.isHostMode mode = true
  · have host : sameIgnoringCase mode "host" = true := shared
    rw [if_pos shared]
    simp only [hostModeVariables, List.foldl_cons, List.foldl_nil, Table.get?_insert, host,
      true_and, List.mem_cons, List.not_mem_nil, or_false]
    by_cases last : key = "PICK_ALL_RANDOM_PORTS"
    · rw [if_pos last, if_neg (by rw [last]; decide), if_pos last]
    · rw [if_neg last, if_neg last]
      by_cases node : key = "SELENIUM_NODE_HOST"
      · rw [if_pos node, if_pos (.inr node)]
      · rw [if_neg node]
        by_cases hub : key = "SELENIUM_HUB_HOST"
        · rw [if_pos hub, if_pos (.inl hub)]
        · rw [if_neg hub, if_neg (not_or.mpr ⟨hub, node⟩)]
  · have apart : ¬ sameIgnoringCase mode "host" = true := shared
    rw [if_neg shared, if_neg fun h => apart h.1, if_neg fun h => apart h.1]

theorem flattened_eq {held : List (String × String)} (ordered : env.Increasing)
    (same : held.Perm env) : flattened held = env.map fun e => e.1 ++ "=" ++ e.2 := by
  have keys : (held.map (·.1)).mergeSort (· ≤ ·) = env.keys := by
    have sorted : ((held.map (·.1)).mergeSort (· ≤ ·)).Pairwise (· ≤ ·) := by
      refine List.Pairwise.imp of_decide_eq_true
        (List.pairwise_mergeSort (fun a b c h h' => ?_) (fun a b => ?_) _)
      · exact decide_eq_true (String.le_trans (of_decide_eq_true h) (of_decide_eq_true h'))
      · simpa using String.le_total a b
    have increasing : env.keys.Pairwise (· ≤ ·) :=
      ordered.imp fun before => String.not_lt.mp (String.lt_asymm before)
    refine List.Perm.eq_of_pairwise (fun a b _ _ => String.le_antisymm) sorted increasing ?_
    exact (List.mergeSort_perm _ _).trans (same.map (·.1))
  have nodup : (held.map (·.1)).Nodup := by
    rw [(same.map (·.1)).nodup_iff]
    exact ordered.nodup
  rw [flattened, keys, Table.keys, List.map_map]
  refine List.map_congr_left fun e mem => ?_
  have listed : (e.1, e.2) ∈ held := same.mem_iff.mpr mem
  have found := Table.get?_of_mem nodup listed
  change e.1 ++ "=" ++ (Table.get? held e.1).getD "" = _
  rw [found]
  rfl

theorem noPorts_iff {portText : String} : NoPorts env portText ↔ ports? env portText = none := by
  rw [NoPorts, ports?]
  cases Port.ofText? portText with
  | none => simp
  | some port =>
    simp [← Action.previewFor?_eq_none]

end NodeSpec

theorem Creates.outcome_ne_error {engine : Engine σ} {parent image portText : String}
    {env : Table String} {w : World σ} {r : Creation × World σ}
    (h : Creates engine parent image env portText w r) (sent : r.2.submitted ≠ w.submitted)
    (e : ConfigurationError) : r.1.outcome ≠ .error e := by
  cases h with
  | refused ports n => exact nofun
  | forbidden port preview ports f asked mounts =>
    refine absurd ?_ sent
    rw [Action.failCreation_submitted, Fact.get_submitted mounts]
  | submitted port preview ports bindings n p asked named settled mounts network proxy given
      shared =>
    exact Action.submit_outcome_ne_error engine _ _ _ _ _ e

/-- The container has one entry for each of these variables, in the order of the bytes of their
keys, and behind them those for the proxy; the order in which a map hands out its keys is not to be
seen. -/
structure Flattens (given : Table String) (proxy : ProxyVariables) (spec : Spec) : Prop where
  ordered : given.keys.Pairwise fun key other => encodeText key < encodeText other
  entries : spec.env = given.map (fun e => e.1 ++ "=" ++ e.2) ++ proxy.entries
  anyOrder : ∀ held : List (String × String), held.Perm given →
    spec.env = NodeSpec.flattened held ++ proxy.entries

theorem flattens_build {given : Table String} (ordered : given.Increasing) (name image : String)
    (port preview : Port) (mounts : List MountBinding) (network : NodeNetwork)
    (proxy : ProxyVariables) :
    Flattens given proxy (NodeSpec.build name image given port preview mounts network proxy) where
  ordered := ordered.imp Utf8.lt_iff_encodeText_lt.mp
  entries := rfl
  anyOrder held same := by
    rw [NodeSpec.flattened_eq ordered same]
    rfl

/-- A creation that ends before a container is submitted, for its ports or for the parent's mounts,
leaves the caller's variables as they are. Any other writes the preview port where none was asked
for, and what host mode needs in that mode only, and submits one container with just these
variables, of which one names the preview port that is opened. -/
theorem variables_are_handed_on (r : NodeRequest σ) (env : Table String) (w : World σ)
    (ordered : env.Increasing) :
    let result := r.result env w
    (r.specs env w = [] ∧ result.1.env = env ∧
        (NoPorts env r.port ∨ ∃ e, result.1.outcome = .error e)) ∨
      ∃ spec port preview network proxy, r.specs env w = [spec] ∧
        ¬ NoPorts env r.port ∧ (∀ e, result.1.outcome ≠ .error e) ∧
        Port.ofText? r.port = some port ∧
        result.2.parent.network = some network ∧ spec.networkMode = network.mode ∧
        result.2.parent.proxy = some proxy ∧
        (∀ key, result.1.env.get? key = NodeSpec.afterwards? env port network.mode key) ∧
        Flattens result.1.env proxy spec ∧
        (∃ text, result.1.env.filter (·.1 = "NOVNC_PORT") = [("NOVNC_PORT", text)] ∧
          Port.ofText? text = some preview) ∧
        Opens spec (if port = preview then [port] else [port, preview]) := by
  intro result
  have creates := Action.createContainer_creates r.engine r.parent r.image env r.port
    { w with engine := r.state }
  have specs : r.specs env w = result.2.submitted.drop w.submitted.length := rfl
  obtain ⟨ended, kept, submitted⟩ |
    ⟨port, preview, mounts, network, proxy, ports, knows, left, submitted⟩ := creates.sends
  · change result.2.submitted = w.submitted at submitted
    refine .inl ⟨?_, kept, ended.imp_left NodeSpec.noPorts_iff.mpr⟩
    rw [specs, submitted, List.drop_length]
  · let spec := NodeSpec.build (nodeName r.parent r.port) r.image result.1.env port preview mounts
      network proxy
    change result.2.submitted = w.submitted ++ [spec] at submitted
    change result.1.env = _ at left
    obtain ⟨own, picked⟩ := NodeSpec.ports?_eq_some.mp ports
    have increasing : result.1.env.Increasing := by
      rw [left]
      exact NodeSpec.increasing_withMode (NodeSpec.increasing_withPreview ordered) network.mode
    have asked : NodeSpec.requestedPreview? result.1.env = some preview := by
      rw [left]
      exact NodeSpec.requestedPreview?_afterwards picked network.mode
    obtain ⟨text, told, read⟩ := Option.bind_eq_some_iff.mp asked
    have grown : result.2.submitted ≠ w.submitted := by
      rw [submitted]
      exact fun same => by simpa using congrArg List.length same
    refine .inr ⟨spec, port, preview, network, proxy, ?_, ?_, creates.outcome_ne_error grown, own,
      knows.network, rfl, knows.proxy, fun key => ?_, flattens_build increasing _ _ _ _ _ _ _,
      ⟨text, Table.filter_of_mem increasing.nodup (Table.mem_of_get? told), read⟩,
      opens_build _ _ _ _ _ _ _ _⟩
    · rw [specs, submitted, List.drop_left]
    · rw [NodeSpec.noPorts_iff, ports]
      exact Option.some_ne_none _
    · rw [left]
      exact NodeSpec.get?_given picked network.mode key

def ownVariables : Table String :=
  [("LANG", "C"), ("NOVNC_PORT", "soon"), ("SELENIUM_HUB_HOST", "hub")]

theorem variables_are_handed_on_in_host_mode : ∃ spec,
    (hubRequest hostShelf).specs ownVariables (World.begin ()) = [spec] ∧
      spec.networkMode = "host" ∧
      spec.env = ["LANG=C", "NOVNC_PORT=15555", "PICK_ALL_RANDOM_PORTS=true",
        "SELENIUM_HUB_HOST=localhost", "SELENIUM_NODE_HOST=localhost"] ∧
      ∃ proxy, Flattens ((hubRequest hostShelf).result ownVariables (World.begin ())).1.env proxy
        spec := by
  have shown : ((hubRequest hostShelf).specs ownVariables (World.begin ())).map
      (fun spec => (spec.networkMode, spec.env)) =
      [("host", ["LANG=C", "NOVNC_PORT=15555", "PICK_ALL_RANDOM_PORTS=true",
        "SELENIUM_HUB_HOST=localhost", "SELENIUM_NODE_HOST=localhost"])] := by decide +kernel
  have ordered : ownVariables.Increasing := by
    unfold Table.Increasing
    decide
  obtain ⟨none, -⟩ | ⟨spec, -, -, -, proxy, sent, -, -, -, -, -, -, -, flattens, -⟩ :=
    variables_are_handed_on (hubRequest hostShelf) ownVariables (World.begin ()) ordered
  · rw [none] at shown
    cases shown
  · rw [sent] at shown
    obtain ⟨mode, entries⟩ := Prod.mk.inj (List.cons.inj shown).1
    exact ⟨spec, sent, mode, entries, proxy, flattens⟩

end NodeFleet
