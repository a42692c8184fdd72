import NodeFleet.Proofs.Node.Preview

set_option autoImplicit false
namespace NodeFleet
variable {σ τ : Type}

namespace NodeSpec
variable {env : Table String} {port preview : Port}

theorem tcp_injective {p q : Port} (h : tcp p = tcp q) : p = q := by
  have texts : p.text = q.text := by
    have lists := congrArg String.toList h
    rw [tcp, tcp, String.toList_append, String.toList_append] at lists
    exact String.toList_injective (List.append_cancel_right lists)
  have read := congrArg Port.ofText? texts
  rw [Port.ofText?_text, Port.ofText?_text] at read
  exact Option.some.inj read

theorem portBindings_other (h : preview ≠ port) :
    (portBindings port preview).filter (fun b => b.1 ≠ tcp port) =
      [(tcp preview, ⟨"", preview.text⟩)] := by
  have ne : tcp preview ≠ tcp port := fun same => h (tcp_injective same)
  let own : String × PortBinding := (tcp port, ⟨"", port.text⟩)
  change (Table.insert [own] (tcp preview) ⟨"", preview.text⟩).filter _ = _
  by_cases before : tcp preview < tcp port
  · simp [Table.insert, own, before, ne]
  · simp [Table.insert, own, before, ne]

theorem increasing_withPreview (h : env.Increasing) : (withPreview env preview).Increasing := by
  unfold withPreview
  split
  · exact h
  · exact h.insert _ _

theorem increasing_withMode (h : env.Increasing) (mode : String) :
    (withMode env mode).Increasing := by
  unfold withMode
  split
  · exact ((h.insert _ _).insert _ _).insert _ _
  · exact h

theorem mem_envEntries {key value : String} (h : env.get? key = some value)
    (proxy : ProxyVariables) : key ++ "=" ++ value ∈ envEntries env proxy :=
  List.mem_append_left _ (List.mem_map.mpr ⟨(key, value), Table.mem_of_get? h, rfl⟩)

end NodeSpec

/-- A creation that ends because the port leaves no room for a preview port. The engine is not asked
anything. -/
structure RefusedForRoom (parent image : String) (env : Table String) (p : Port) (w : World σ)
    (r : Creation × World σ) : Prop where
  outcome : r.1.outcome = .ok (.failed (nodeName parent p.text))
  kept : r.1.env = env
  world : r.2 = { w with
    trace := w.trace ++ [.noted (.noPreviewPort p.number), .counted (.failed image)] }

/-- The container, its variables and the caller's, which were `env` before and are `given` now, name
one preview port for the node on `p`. -/
structure Tells (env given : Table String) (spec : Spec) (p preview : Port) : Prop where
  bound : spec.portBindings.filter (fun b => b.1 ≠ NodeSpec.tcp p) =
    [(NodeSpec.tcp preview, ⟨"", preview.text⟩)]
  named : given.get? NodeSpec.previewVariable = some preview.text
  only : env.Increasing → ∀ value, (NodeSpec.previewVariable, value) ∈ given → value = preview.text
  flattened : ∃ proxy, spec.env = NodeSpec.envEntries given proxy
  entry : NodeSpec.previewVariable ++ "=" ++ preview.text ∈ spec.env

theorem RefusedForRoom.calls {parent image : String} {env : Table String} {p : Port} {w : World σ}
    {r : Creation × World σ} (h : RefusedForRoom parent image env p w r) :
    r.2.calls = w.calls := by
  rw [h.world, World.calls, List.filterMap_append]
  exact List.append_nil _

section
variable (engine : Engine σ) (parent image : String) {env : Table String} {p preview : Port}

theorem createContainer_of_no_preview (free : NodeSpec.requestedPreview? env = none)
    (room : p.preview? = none) (w : World σ) :
    RefusedForRoom parent image env p w
      (Action.createContainer engine parent image env p.text w) := by
  have none : NodeSpec.previewFor? env p = none := (NodeSpec.previewFor?_of_free free).trans room
  have run : Action.createContainer engine parent image env p.text w =
      Action.failCreation image env (.ok (.failed (nodeName parent p.text)))
        (Action.note (.noPreviewPort p.number) w).2 := by
    simp only [Action.createContainer, Port.ofText?_text, none]
    rfl
  rw [run]
  have trace : w.trace ++ [.noted (.noPreviewPort p.number)] ++ [.counted (.failed image)] =
      w.trace ++ [.noted (.noPreviewPort p.number), .counted (.failed image)] :=
    List.append_assoc _ _ _
  exact ⟨rfl, rfl, congrArg (World.mk w.engine w.parent) trace⟩

theorem tells_build (free : NodeSpec.requestedPreview? env = none)
    (room : p.preview? = some preview) (name : String) (mounts : List MountBinding)
    (network : NodeNetwork) (proxy : ProxyVariables) :
    let given := NodeSpec.withMode (NodeSpec.withPreview env preview) network.mode
    Tells env given (NodeSpec.build name image given p preview mounts network proxy) p preview := by
  intro given
  have told : given.get? NodeSpec.previewVariable = some preview.text := by
    rw [NodeSpec.get?_withMode]
    exact NodeSpec.get?_withPreview_of_free free
  have apart : preview ≠ p := by
    have gap : preview.number = p.number + 10000 := Port.preview?_eq_some.mp room
    rintro rfl
    omega
  refine ⟨NodeSpec.portBindings_other apart, told, fun ordered value mem => ?_, ⟨proxy, rfl⟩,
    NodeSpec.mem_envEntries told proxy⟩
  have kept : given.Increasing :=
    NodeSpec.increasing_withMode (NodeSpec.increasing_withPreview ordered) network.mode
  exact Option.some.inj ((kept.get?_of_mem mem).symm.trans told)

theorem createContainer_tells (free : NodeSpec.requestedPreview? env = none)
    (room : p.preview? = some preview) (w : World σ) :
    let created := Action.createContainer engine parent image env p.text w
    (∃ e, created.1.outcome = .error e) ∧ created.2.submitted = w.submitted ∨
      ∃ spec, created.2.submitted = w.submitted ++ [spec] ∧
        Tells env created.1.env spec p preview := by
  intro created
  have own : NodeSpec.ports? env p.text = some (p, preview) :=
    NodeSpec.ports?_eq_some.mpr
      ⟨Port.ofText?_text p, (NodeSpec.previewFor?_of_free free).trans room⟩
  obtain ⟨none | failed, -, nothing⟩ | ⟨port, q, mounts, network, proxy, ports, -, left, sent⟩ :=
    (Action.createContainer_creates engine parent image env p.text w).sends
  · cases none.symm.trans own
  · exact .inl ⟨failed, nothing⟩
  · obtain ⟨rfl, rfl⟩ := Prod.mk.inj (Option.some.inj (own.symm.trans ports))
    refine .inr ⟨_, sent, ?_⟩
    change created.1.env = _ at left
    change Tells env created.1.env (NodeSpec.build _ image created.1.env _ _ _ _ _) _ _
    rw [left]
    exact tells_build image free room _ mounts network proxy

end

/-- For variables that name no usable preview port, creation and registration refuse a port for lack
of room in the same cases. Otherwise the registration answers the one preview port that a container
binds and that its variables and the caller's name. -/
theorem creation_and_registration_agree (engine : Engine σ) (parent image : String)
    (env : Table String) (free : NodeSpec.requestedPreview? env = none) (p : Port) (w : World σ)
    (other : Engine τ) (url : Url) (port : url.effectivePort? = some p) (now : World τ) :
    let created := Action.createContainer engine parent image env p.text w
    let registered := Action.registerNode other parent url now
    let refused := RefusedForRoom parent image env p w created
    (refused ↔ registered.1 = .unknown ∧ registered.2.calls = now.calls) ∧
    (refused ↔ maxU16 < p.number + Port.previewGap) ∧
    (created.2.calls ≠ w.calls → ¬ refused) ∧
    (¬ refused → ∃ preview : Port, preview.number = p.number + Port.previewGap ∧
      preview.number ≤ maxU16 ∧ registered.1.secondaryPort = some preview ∧
      ((∃ e, created.1.outcome = .error e) ∧ created.2.submitted = w.submitted ∨
        ∃ spec, created.2.submitted = w.submitted ++ [spec] ∧
          Tells env created.1.env spec p preview)) := by
  intro created registered refused
  have asked : created.2.calls ≠ w.calls → ¬ refused := fun calls refused => calls refused.calls
  cases room : p.preview? with
  | none =>
    have beyond := Port.preview?_eq_none.mp room
    have fails : refused := createContainer_of_no_preview engine parent image free room w
    have unknown : registered.1 = .unknown ∧ registered.2.calls = now.calls :=
      Action.registerNode_of_no_preview other parent port room now
    exact ⟨iff_of_true fails unknown, iff_of_true fails beyond, asked, fun not => (not fails).elim⟩
  | some preview =>
    have gap := Port.preview?_eq_some.mp room
    have within : ¬ maxU16 < p.number + Port.previewGap :=
      Nat.not_lt.mpr (gap ▸ preview.number_le)
    have sent := createContainer_tells engine parent image free room w
    -- a refused creation has no error, and it asks for no container
    have passes : ¬ refused := by
      intro fails
      obtain ⟨⟨e, failed⟩, -⟩ | ⟨spec, grown, -⟩ := sent
      · cases fails.outcome.symm.trans failed
      · have same : created.2.submitted = w.submitted :=
          congrArg (List.filterMap Call.spec?) fails.calls
        have lengths := congrArg List.length (grown.symm.trans same)
        simp at lengths
    obtain ⟨answer, -⟩ := Action.registerNode_of_preview other parent port room now
    have secondary : registered.1.secondaryPort = some preview :=
      congrArg Registration.secondaryPort answer
    have known : ¬ (registered.1 = .unknown ∧ registered.2.calls = now.calls) := by
      rintro ⟨unknown, -⟩
      rw [unknown] at secondary
      cases secondary
    exact ⟨iff_of_false passes known, iff_of_false passes within, asked,
      fun _ => ⟨preview, gap, preview.number_le, secondary, sent⟩⟩

theorem creation_and_registration_agree_unusable :
    let created := shelved [("NOVNC_PORT", "soon")] "5555"
    let registered :=
      Action.registerNode shelf "hub" (portUrl 5555 (by decide)) (shelved [] "5555").2
    created.1.env = [("NOVNC_PORT", "15555")] ∧ ∃ preview : Port, preview.number = 15555 ∧
      registered.1.secondaryPort = some preview ∧ ∃ spec, created.2.submitted = [spec] ∧
        Tells [("NOVNC_PORT", "soon")] created.1.env spec ⟨5555, by decide⟩ preview := by
  have text : (⟨5555, by decide⟩ : Port).text = "5555" := by decide +kernel
  have agree := creation_and_registration_agree shelf "hub" "node:latest"
    [("NOVNC_PORT", "soon")] rfl ⟨5555, by decide⟩ (World.begin []) shelf
    (portUrl 5555 (by decide)) rfl (shelved [] "5555").2
  rw [text] at agree
  obtain ⟨-, room, -, passes⟩ := agree
  have within : ¬ maxU16 < 5555 + Port.previewGap := by decide
  obtain ⟨preview, gap, -, answered, ⟨-, none⟩ | ⟨spec, sent, tells⟩⟩ :=
    passes fun refused => within (room.mp refused)
  · exact absurd (congrArg List.length none) (by decide +kernel)
  · exact ⟨by decide +kernel, preview, gap, answered, spec, sent, tells⟩

end NodeFleet
