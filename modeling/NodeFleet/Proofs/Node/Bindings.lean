import NodeFleet.Proofs.Node.PortPair
import NodeFleet.Proofs.Node.Retry

set_option autoImplicit false
namespace NodeFleet
variable {σ : Type}

namespace NodeSpec
variable {env : Table String} {port preview : Port}

def binding (p : Port) : String × PortBinding := (tcp p, ⟨"", p.text⟩)

theorem portBindings_self (port : Port) : portBindings port port = [binding port] :=
  Table.insert_insert_self [] (tcp port) _ _

theorem portBindings_perm (apart : port ≠ preview) :
    (portBindings port preview).Perm ([port, preview].map binding) := by
  have ne : tcp preview ≠ tcp port := fun same => apart (tcp_injective same).symm
  change (Table.insert [binding port] (tcp preview) ⟨"", preview.text⟩).Perm _
  by_cases before : tcp preview < tcp port
  · simp only [Table.insert, binding, before, if_true]
    exact .swap _ _ _
  · simp only [Table.insert, binding, before, ne, if_false]
    exact .refl _

theorem increasing_portBindings (port preview : Port) : (portBindings port preview).Increasing :=
  Table.increasing_ofList _

theorem same_port_iff (picked : previewFor? env port = some preview) :
    port = preview ↔ requestedPreview? env = some port := by
  rw [previewFor?] at picked
  cases asked : requestedPreview? env with
  | some p =>
    rw [asked] at picked
    obtain rfl : p = preview := Option.some.inj picked
    exact eq_comm.trans Option.some_inj.symm
  | none =>
    rw [asked] at picked
    have gap : preview.number = port.number + 10000 := Port.preview?_eq_some.mp picked
    have apart : port ≠ preview := by
      rintro rfl
      omega
    exact iff_of_false apart (by simp)

end NodeSpec

/-- The container binds these ports and no other, each under a name of its own, and exposes what it
binds. -/
structure Opens (spec : Spec) (ports : List Port) : Prop where
  bound : spec.portBindings.Perm (ports.map fun p => (p.text ++ "/tcp", ⟨"", p.text⟩))
  apart : spec.portBindings.keys.Nodup
  exposed : spec.exposedPorts = spec.portBindings.keys

/-- The container has its variables from the caller's, which are `given` now, and they name the
preview port. -/
structure NamesPreview (given : Table String) (spec : Spec) (preview : Port) : Prop where
  flattened : ∃ proxy, spec.env = NodeSpec.envEntries given proxy
  named : ∃ text, given.get? NodeSpec.previewVariable = some text ∧
    NodeSpec.previewVariable ++ "=" ++ text ∈ spec.env ∧ Port.ofText? text = some preview

section
variable (name image : String) (env : Table String) (port preview : Port)
  (mounts : List MountBinding) (network : NodeNetwork) (proxy : ProxyVariables)

theorem opens_build : Opens (NodeSpec.build name image env port preview mounts network proxy)
    (if port = preview then [port] else [port, preview]) := by
  have apart : (NodeSpec.portBindings port preview).keys.Nodup := by
    refine List.Pairwise.imp ?_ (NodeSpec.increasing_portBindings port preview)
    rintro key other before rfl
    exact String.lt_irrefl key before
  refine ⟨?_, apart, rfl⟩
  change (NodeSpec.portBindings port preview).Perm (List.map NodeSpec.binding _)
  split
  · rename_i same
    subst same
    rw [NodeSpec.portBindings_self]
    exact .refl _
  · rename_i apart
    exact NodeSpec.portBindings_perm apart

theorem namesPreview_build (asked : NodeSpec.requestedPreview? env = some preview) :
    NamesPreview env (NodeSpec.build name image env port preview mounts network proxy) preview := by
  obtain ⟨text, told, read⟩ := Option.bind_eq_some_iff.mp asked
  exact ⟨⟨proxy, rfl⟩, text, told, NodeSpec.mem_envEntries told proxy, read⟩

end

/-- Whatever is known by then and whatever the texts are, a container that is submitted opens the
port that the request names and the preview port that the container's own variables name. That is
one port exactly if the caller asked for the node's port as its preview port, and otherwise two. -/
theorem created_node_opens_its_ports (r : NodeRequest σ) (env : Table String) (w : World σ)
    (spec : Spec) (sent : spec ∈ r.specs env w) : ∃ port preview,
      Port.ofText? r.port = some port ∧
      NamesPreview (r.result env w).1.env spec preview ∧
      Opens spec (if port = preview then [port] else [port, preview]) ∧
      (port = preview ↔ NodeSpec.requestedPreview? env = some port) := by
  obtain ⟨port, preview, mounts, network, proxy, ports, -, left, -, rfl⟩ :=
    NodeRequest.of_mem_specs sent
  obtain ⟨own, picked⟩ := NodeSpec.ports?_eq_some.mp ports
  have asked : NodeSpec.requestedPreview? (r.result env w).1.env = some preview := by
    rw [left]
    exact NodeSpec.requestedPreview?_afterwards picked network.mode
  exact ⟨port, preview, own, namesPreview_build _ _ _ _ _ _ _ _ asked, opens_build _ _ _ _ _ _ _ _,
    NodeSpec.same_port_iff picked⟩

theorem created_node_opens_its_ports_signed : ∃ spec port preview,
    (shelfRequest "+8080").specs [("NOVNC_PORT", "007000")] (World.begin []) = [spec] ∧
      port.number = 8080 ∧ preview.number = 7000 ∧ Opens spec [port, preview] := by
  have one : ∃ spec, (shelfRequest "+8080").specs [("NOVNC_PORT", "007000")] (World.begin []) =
      [spec] := ⟨_, rfl⟩
  obtain ⟨spec, sent⟩ := one
  obtain ⟨port, preview, own, names, opens, -⟩ := created_node_opens_its_ports
    (shelfRequest "+8080") [("NOVNC_PORT", "007000")] (World.begin []) spec (by simp [sent])
  obtain ⟨text, told, -, read⟩ := names.named
  obtain rfl : port = ⟨8080, by decide⟩ := Option.some.inj (own.symm.trans rfl)
  obtain rfl : text = "007000" := Option.some.inj (told.symm.trans rfl)
  obtain rfl : preview = ⟨7000, by decide⟩ := Option.some.inj (read.symm.trans rfl)
  rw [if_neg (by decide)] at opens
  exact ⟨spec, _, _, sent, rfl, rfl, opens⟩

/-- A caller who asks for the node's own port as its preview port gets one port. -/
theorem not_all_nodes_open_two_ports :
    let sent := (shelved [("NOVNC_PORT", "5555")] "5555").2.submitted
    (¬ ∀ spec ∈ sent, ∃ port preview, port ≠ preview ∧ Opens spec [port, preview]) ∧
      sent.map (fun spec => (spec.exposedPorts, spec.portBindings, spec.env)) =
        [(["5555/tcp"], [("5555/tcp", ⟨"", "5555"⟩)], ["NOVNC_PORT=5555"])] := by
  intro sent
  have shown : sent.map (fun spec => (spec.exposedPorts, spec.portBindings, spec.env)) =
      [(["5555/tcp"], [("5555/tcp", ⟨"", "5555"⟩)], ["NOVNC_PORT=5555"])] := by decide +kernel
  refine ⟨fun all => ?_, shown⟩
  obtain ⟨spec, mem, same⟩ : ∃ spec ∈ sent, spec.portBindings = [("5555/tcp", ⟨"", "5555"⟩)] :=
    ⟨_, List.mem_of_getElem? (i := 0) rfl, by decide +kernel⟩
  obtain ⟨port, preview, -, opens⟩ := all spec mem
  have two := opens.bound.length_eq
  rw [same] at two
  cases two

end NodeFleet
