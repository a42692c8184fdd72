import NodeFleet.Proofs.Node.Creation
import NodeFleet.Proofs.Parent.Fact

set_option autoImplicit false
namespace NodeFleet
variable {σ : Type}

def NodeSpec.ports? (env : Table String) (portText : String) : Option (Port × Port) :=
  (Port.ofText? portText).bind fun port => (previewFor? env port).map fun preview => (port, preview)

theorem NodeSpec.ports?_eq_some {env : Table String} {portText : String} {port preview : Port} :
    ports? env portText = some (port, preview) ↔
      Port.ofText? portText = some port ∧ previewFor? env port = some preview := by
  rw [ports?]
  cases Port.ofText? portText with
  | none => simp
  | some p =>
    simp only [Option.bind_some, Option.map_eq_some_iff, Prod.mk.injEq, Option.some.injEq]
    constructor
    · rintro ⟨q, named, rfl, rfl⟩
      exact ⟨rfl, named⟩
    · rintro ⟨rfl, named⟩
      exact ⟨preview, named, rfl, rfl⟩

def Call.IsAside (c : Call) : Prop := ∀ q : Query, q.asks c = false

namespace Action
variable (engine : Engine σ)

theorem failCreation_makes (image : String) (env : Table String) (outcome : Outcome) :
    Makes engine Call.IsAside (failCreation image env outcome) :=
  .bind (.count _) fun _ => .pure _

theorem launch_makes (spec : Spec) (port : String) (preview : Port) (env : Table String)
    (id : String) : Makes engine Call.IsAside (launch engine spec port preview env id) := by
  refine .bind (.call (fun q => by cases q <;> rfl)) fun started => ?_
  cases started with
  | ok _ => exact .bind (.note _) fun _ => .bind (.count _) fun _ => .pure _
  | error f =>
    refine .bind (.note _) fun _ => .bind (.call (fun q => by cases q <;> rfl)) fun removed => ?_
    cases removed with
    | ok _ => exact failCreation_makes engine _ _ _
    | error g => exact .bind (.note _) fun _ => failCreation_makes engine _ _ _

theorem submit_makes (spec : Spec) (port : String) (preview : Port) (env : Table String) :
    Makes engine Call.IsAside (submit engine spec port preview env) := by
  refine .bind (.note _) fun _ => .bind (.call (fun q => by cases q <;> rfl)) fun created => ?_
  cases created with
  | ok id => exact launch_makes engine spec port preview env id
  | error f => exact .bind (.note _) fun _ => failCreation_makes engine _ _ _

theorem submit_submitted (spec : Spec) (port : String) (preview : Port) (env : Table String)
    (w : World σ) :
    (submit engine spec port preview env w).2.submitted = w.submitted ++ [spec] := by
  obtain ⟨events, sample, leads, -, submission⟩ := submit_course engine spec port preview env w
  rw [leads.submitted]
  generalize events.filterMap Event.call? = calls at submission ⊢
  generalize (submit engine spec port preview env w).1.outcome = outcome at submission
  cases submission with
  | uncreated f create => rfl
  | unstarted id f create start => rfl
  | created id create start => rfl

theorem submit_parent (spec : Spec) (port : String) (preview : Port) (env : Table String)
    (w : World σ) : (submit engine spec port preview env w).2.parent = w.parent := by
  obtain ⟨events, passes, -⟩ := submit_makes engine spec port preview env w
  exact passes.parent

theorem submit_outcome_ne_error (spec : Spec) (port : String) (preview : Port) (env : Table String)
    (w : World σ) (e : ConfigurationError) :
    (submit engine spec port preview env w).1.outcome ≠ .error e := by
  obtain ⟨events, sample, -, -, submission⟩ := submit_course engine spec port preview env w
  exact submission.outcome_ne_error e

theorem Asks.submitted {α : Type} {engine : Engine σ} {a : Action σ α} (h : Asks engine a)
    (w : World σ) : (a w).2.submitted = w.submitted := by
  obtain ⟨events, leads, asks⟩ := h w
  have queries := filterMap_call_asks asks
  have none : (events.filterMap Event.call?).filterMap Call.spec? = [] := by
    rw [List.filterMap_eq_nil_iff]
    intro c mem
    cases c with
    | create spec => exact (queries _ mem).elim
    | _ => rfl
  rw [leads.submitted, none, List.append_nil]

theorem note_submitted (n : Note) (w : World σ) : (note n w).2.submitted = w.submitted := by
  simp [World.submitted, World.calls, note, Event.call?]

theorem failCreation_submitted (image : String) (env : Table String) (outcome : Outcome)
    (w : World σ) : (failCreation image env outcome w).2.submitted = w.submitted := by
  change (count _ w).2.submitted = w.submitted
  simp [World.submitted, World.calls, count, Event.call?]

end Action

theorem Fact.get_submitted {f : Fact} {engine : Engine σ} {parent : String} {w w' : World σ}
    {x : f.Value} (h : f.get engine parent w = (x, w')) : w'.submitted = w.submitted := by
  have asks : Action.Asks engine (f.get engine parent) := by
    cases f with
    | network => exact Action.network_asks engine parent
    | mounts => exact Action.mountBindings_asks engine parent
    | proxy => exact Action.proxyVariables_asks engine parent
  have same := asks.submitted w
  rwa [h] at same

theorem Fact.submitted_settled {engine : Engine σ} {parent : String}
    {w asked named settled : World σ} {bindings : Except ConfigurationError (List MountBinding)}
    {n : NodeNetwork} {p : ProxyVariables}
    (mounts : Fact.mounts.get engine parent w = (bindings, asked))
    (network : Fact.network.get engine parent asked = (n, named))
    (proxy : Fact.proxy.get engine parent named = (p, settled)) :
    settled.submitted = w.submitted := by
  rw [Fact.get_submitted proxy, Fact.get_submitted network, Fact.get_submitted mounts]

structure ParentView.Knows (v : ParentView) (mounts : List MountBinding) (network : NodeNetwork)
    (proxy : ProxyVariables) : Prop where
  mounts : Fact.mounts.known? v = some (.ok mounts)
  network : Fact.network.known? v = some network
  proxy : Fact.proxy.known? v = some proxy

theorem ParentView.Knows.mono {v v' : ParentView} {mounts : List MountBinding}
    {network : NodeNetwork} {proxy : ProxyVariables} (h : v.Knows mounts network proxy)
    (within : v.Within v') : v'.Knows mounts network proxy :=
  ⟨within .mounts _ h.mounts, within .network _ h.network, within .proxy _ h.proxy⟩

theorem Fact.knows_settled {engine : Engine σ} {parent : String} {w asked named settled : World σ}
    {bindings : List MountBinding} {n : NodeNetwork} {p : ProxyVariables}
    (mounts : Fact.mounts.get engine parent w = (.ok bindings, asked))
    (network : Fact.network.get engine parent asked = (n, named))
    (proxy : Fact.proxy.get engine parent named = (p, settled)) :
    settled.parent.Knows bindings n p := by
  have first : Fact.mounts.known? named.parent = some (.ok bindings) :=
    (known?_of_get_other network (by decide)).trans (known?_of_get mounts)
  exact ⟨(known?_of_get_other proxy (by decide)).trans first,
    (known?_of_get_other proxy (by decide)).trans (known?_of_get network), known?_of_get proxy⟩

/-- A creation spelled out: the ports, the facts in the order of their use with the worlds that each
leaves, and how it ends. -/
inductive Creates (engine : Engine σ) (parent image : String) (env : Table String)
    (portText : String) (w : World σ) : Creation × World σ → Prop
  | refused (ports : NodeSpec.ports? env portText = none) (n : Note) :
      Creates engine parent image env portText w
        (Action.failCreation image env (.ok (.failed (nodeName parent portText)))
          (Action.note n w).2)
  | forbidden (port preview : Port) (ports : NodeSpec.ports? env portText = some (port, preview))
      (e : ConfigurationError) (asked : World σ)
      (mounts : Fact.mounts.get engine parent w = (.error e, asked)) :
      Creates engine parent image env portText w (Action.failCreation image env (.error e) asked)
  | submitted (port preview : Port) (ports : NodeSpec.ports? env portText = some (port, preview))
      (bindings : List MountBinding) (n : NodeNetwork) (p : ProxyVariables)
      (asked named settled : World σ)
      (mounts : Fact.mounts.get engine parent w = (.ok bindings, asked))
      (network : Fact.network.get engine parent asked = (n, named))
      (proxy : Fact.proxy.get engine parent named = (p, settled)) (given : Table String)
      (shared : given = NodeSpec.withMode (NodeSpec.withPreview env preview) n.mode) :
      Creates engine parent image env portText w
        (Action.submit engine
          (NodeSpec.build (nodeName parent portText) image given port preview bindings n p)
          portText preview given settled)

namespace Creates
variable {engine : Engine σ} {parent image portText : String} {env : Table String} {w : World σ}
  {r : Creation × World σ}

theorem of_known {port preview : Port} {mounts : List MountBinding} {network : NodeNetwork}
    {proxy : ProxyVariables} (h : Creates engine parent image env portText w r)
    (ports : NodeSpec.ports? env portText = some (port, preview))
    (known : w.parent.Knows mounts network proxy) :
    let given := NodeSpec.withMode (NodeSpec.withPreview env preview) network.mode
    r = Action.submit engine
      (NodeSpec.build (nodeName parent portText) image given port preview mounts network proxy)
      portText preview given w := by
  have first : Fact.mounts.get engine parent w = (.ok mounts, w) := Fact.get_of_known known.mounts
  have second : Fact.network.get engine parent w = (network, w) := Fact.get_of_known known.network
  have third : Fact.proxy.get engine parent w = (proxy, w) := Fact.get_of_known known.proxy
  cases h with
  | refused none n => cases none.symm.trans ports
  | forbidden port' preview' ports' e asked forbids => cases forbids.symm.trans first
  | submitted port' preview' ports' bindings n p asked named settled allows shares forwards given
      shared =>
    obtain ⟨rfl, rfl⟩ := Prod.mk.inj (Option.some.inj (ports'.symm.trans ports))
    obtain ⟨same, rfl⟩ := Prod.mk.inj (allows.symm.trans first)
    obtain rfl := Except.ok.inj same
    obtain ⟨rfl, rfl⟩ := Prod.mk.inj (shares.symm.trans second)
    obtain ⟨rfl, rfl⟩ := Prod.mk.inj (forwards.symm.trans third)
    rw [shared]

end Creates

namespace Action
variable (engine : Engine σ)

theorem createOn_creates {parent image : String} {env : Table String} {portText : String}
    {w : World σ} {port preview : Port}
    (ports : NodeSpec.ports? env portText = some (port, preview)) :
    Creates engine parent image env portText w
      (createOn engine parent image env portText port preview w) := by
  rw [createOn, bind_apply]
  cases mounts : mountBindings engine parent w with
  | mk answer asked =>
    cases answer with
    | error e => exact .forbidden port preview ports e asked mounts
    | ok bindings =>
      dsimp only
      rw [bind_apply, bind_apply]
      exact .submitted port preview ports bindings _ _ asked _ _ mounts rfl rfl _ rfl

theorem createContainer_creates (parent image : String) (env : Table String) (portText : String)
    (w : World σ) : Creates engine parent image env portText w
      (createContainer engine parent image env portText w) := by
  rw [createContainer]
  cases number : Port.ofText? portText with
  | none =>
    have ports : NodeSpec.ports? env portText = none := by rw [NodeSpec.ports?, number]; rfl
    exact .refused ports (.invalidPort portText)
  | some port =>
    dsimp only
    cases preview : NodeSpec.previewFor? env port with
    | none =>
      have ports : NodeSpec.ports? env portText = none := by
        rw [NodeSpec.ports?, number, Option.bind_some, preview]
        rfl
      exact .refused ports (.noPreviewPort port.number)
    | some p => exact createOn_creates engine (NodeSpec.ports?_eq_some.mpr ⟨number, preview⟩)

end Action
end NodeFleet
