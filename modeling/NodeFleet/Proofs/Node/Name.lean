import NodeFleet.Proofs.Node.Preview
import NodeFleet.Text.Cut

set_option autoImplicit false
namespace NodeFleet
variable {σ τ : Type}

/-- What stands before the last underscore, and what follows it if that reads as a port. -/
def nodeParts? (name : String) : Option (String × String) :=
  match cutAt '_' name.toList.reverse with
  | (port, some parent) =>
    if (Port.ofText? (String.ofList port.reverse)).isSome then
      some (String.ofList parent.reverse, String.ofList port.reverse)
    else none
  | (_, none) => none

theorem underscore_not_mem {text : String} (readable : (Port.ofText? text).isSome) :
    '_' ∉ text.toList := by
  obtain ⟨p, read⟩ := Option.isSome_iff_exists.mp readable
  intro mem
  rcases (Port.ofText?_eq_some_iff.mp read).char mem with sign | digit
  · cases sign
  · cases digit

theorem nodeParts?_eq_some_iff {name parent port : String} :
    nodeParts? name = some (parent, port) ↔
      name = nodeName parent port ∧ (Port.ofText? port).isSome := by
  constructor
  · intro parts
    rw [nodeParts?] at parts
    split at parts
    · rename_i back front cut
      split at parts
      · rename_i readable
        obtain ⟨rfl, rfl⟩ := Prod.mk.inj (Option.some.inj parts)
        refine ⟨String.toList_injective ?_, readable⟩
        have text := congrArg List.reverse (cutAt_eq_some_iff.mp cut).1
        rw [List.reverse_reverse, List.reverse_append, List.reverse_cons, List.append_assoc] at text
        rw [nodeName_toList, String.toList_ofList, String.toList_ofList]
        exact text
      · cases parts
    · cases parts
  -- read backwards, a name begins with its port, up to the first underscore
  · rintro ⟨rfl, readable⟩
    have free : '_' ∉ port.toList.reverse := by
      rw [List.mem_reverse]
      exact underscore_not_mem readable
    have backwards : (nodeName parent port).toList.reverse =
        port.toList.reverse ++ '_' :: parent.toList.reverse := by
      rw [nodeName_toList, List.reverse_append, List.reverse_cons, List.append_assoc]
      rfl
    rw [nodeParts?, backwards, cutAt_append free]
    simp [readable]

namespace Action

theorem failCreation_calls (image : String) (env : Table String) (outcome : Outcome)
    (w : World σ) : (failCreation image env outcome w).2.calls = w.calls := by
  change (count (.failed image) w).2.calls = w.calls
  rw [World.calls, count_trace, List.filterMap_append]
  exact List.append_nil _

end Action

theorem Fact.calls_ne_of_unknown {engine : Engine σ} {parent : String} {w w' : World σ}
    {x : Fact.mounts.Value} (unknown : Fact.mounts.known? w.parent = none)
    (h : Fact.mounts.get engine parent w = (x, w')) : w'.calls ≠ w.calls := by
  obtain ⟨rfl, rfl⟩ := Prod.mk.inj ((get_of_unknown unknown).symm.trans h)
  obtain ⟨events, lookup, found, calls, -⟩ := Action.findMounts_passes engine parent w
  have grown := found.toLeads.calls
  rw [calls] at grown
  change (Action.findMounts engine parent w).2.calls ≠ w.calls
  rw [grown]
  simp

theorem Creates.calls_ne_iff {engine : Engine σ} {parent image portText : String}
    {env : Table String} {w : World σ} {r : Creation × World σ}
    (h : Creates engine parent image env portText w r) :
    r.2.calls ≠ w.calls ↔
      (NodeSpec.ports? env portText).isSome ∧ ∀ e, w.parent.mounts ≠ some (.error e) := by
  cases h with
  | refused ports n =>
    rw [Action.failCreation_calls, Action.note_calls, ports]
    simp
  | forbidden port preview ports e asked mounts =>
    rw [Action.failCreation_calls, ports]
    cases known : Fact.mounts.known? w.parent with
    | some x =>
      obtain ⟨rfl, rfl⟩ := Prod.mk.inj ((Fact.get_of_known known).symm.trans mounts)
      exact iff_of_false (fun ne => ne rfl) fun free => free.2 e known
    | none =>
      refine iff_of_true (Fact.calls_ne_of_unknown known mounts) ⟨rfl, fun e' refused => ?_⟩
      cases known.symm.trans refused
  | submitted port preview ports bindings n p asked named settled mounts network proxy given
      shared =>
    rw [ports]
    refine iff_of_true (fun same => ?_) ⟨rfl, fun e refused => ?_⟩
    · let spec := NodeSpec.build (nodeName parent portText) image given port preview bindings n p
      have sent : (Action.submit engine spec portText preview given settled).2.submitted =
          w.submitted := congrArg (List.filterMap Call.spec?) same
      rw [Action.submit_submitted, Fact.submitted_settled mounts network proxy] at sent
      simp at sent
    · cases (Fact.get_of_known (f := .mounts) refused).symm.trans mounts

namespace NodeRequest
variable {r : NodeRequest σ} {env : Table String} {w : World σ}

/-- At least one call is made for the request, if only to look for the parent. -/
def Reaches (r : NodeRequest σ) (env : Table String) (w : World σ) : Prop :=
  (r.result env w).2.calls ≠ w.calls

theorem reaches_iff : r.Reaches env w ↔
    (NodeSpec.ports? env r.port).isSome ∧ ∀ e, w.parent.mounts ≠ some (.error e) :=
  (Action.createContainer_creates r.engine r.parent r.image env r.port
    { w with engine := r.state }).calls_ne_iff

theorem Reaches.readable (h : r.Reaches env w) : (Port.ofText? r.port).isSome := by
  obtain ⟨⟨port, preview⟩, ports⟩ := Option.isSome_iff_exists.mp (reaches_iff.mp h).1
  exact Option.isSome_of_eq_some (NodeSpec.ports?_eq_some.mp ports).1

theorem reaches_of_readable (r : NodeRequest σ) {p : Port} (readable : Port.ofText? r.port = some p)
    (state : σ) : r.Reaches [(NodeSpec.previewVariable, p.text)] (World.begin state) := by
  have named : Table.get? [(NodeSpec.previewVariable, p.text)] NodeSpec.previewVariable =
      some p.text := Table.get?_insert_self [] _ _
  have ports : NodeSpec.ports? [(NodeSpec.previewVariable, p.text)] r.port = some (p, p) :=
    NodeSpec.ports?_eq_some.mpr ⟨readable, NodeSpec.previewFor?_of_text named⟩
  exact reaches_iff.mpr ⟨Option.isSome_of_eq_some ports, nofun⟩

end NodeRequest

/-- The pairs that are read off names are those for which a creation can get as far as an engine. -/
theorem nodeParts?_eq_some_iff_reached {name parent port : String} :
    nodeParts? name = some (parent, port) ↔ name = nodeName parent port ∧
      ∃ (σ : Type) (r : NodeRequest σ) (env : Table String) (w : World σ),
        r.parent = parent ∧ r.port = port ∧ r.Reaches env w := by
  rw [nodeParts?_eq_some_iff]
  refine and_congr_right fun _ => ⟨fun readable => ?_, ?_⟩
  · obtain ⟨p, read⟩ := Option.isSome_iff_exists.mp readable
    let r : NodeRequest (List Summary) := ⟨shelf, [], parent, "node:latest", port⟩
    exact ⟨_, r, _, _, rfl, rfl, r.reaches_of_readable read []⟩
  · rintro ⟨σ, r, env, w, rfl, rfl, reached⟩
    exact reached.readable

/-- Two creations that make calls, for whatever parents, with whatever variables and on whatever
engines, have one name exactly if they have one parent and one port text; both are read off it. -/
theorem node_names_are_uniquely_decodable (r : NodeRequest σ) (env : Table String) (w : World σ)
    (reached : r.Reaches env w) (other : NodeRequest τ) (env' : Table String) (w' : World τ)
    (reached' : other.Reaches env' w') :
    nodeParts? (nodeName r.parent r.port) = some (r.parent, r.port) ∧
      (nodeName r.parent r.port = nodeName other.parent other.port ↔
        r.parent = other.parent ∧ r.port = other.port) := by
  have own : nodeParts? (nodeName r.parent r.port) = some (r.parent, r.port) :=
    nodeParts?_eq_some_iff_reached.mpr ⟨rfl, σ, r, env, w, rfl, rfl, reached⟩
  have others : nodeParts? (nodeName other.parent other.port) = some (other.parent, other.port) :=
    nodeParts?_eq_some_iff_reached.mpr ⟨rfl, τ, other, env', w', rfl, rfl, reached'⟩
  refine ⟨own, fun same => ?_, fun ⟨parent, port⟩ => by rw [parent, port]⟩
  rw [same, others] at own
  obtain ⟨parent, port⟩ := Prod.mk.inj (Option.some.inj own)
  exact ⟨parent.symm, port.symm⟩

def requestFor (parent port : String) : NodeRequest (List Summary) :=
  ⟨shelf, [], parent, "node:latest", port⟩

theorem node_names_are_uniquely_decodable_underscored :
    nodeName "hub_1" "02" = nodeName "hub" "1_02" ∧
      (requestFor "hub_1" "02").Reaches [] (World.begin []) ∧
      (requestFor "hub" "+102").Reaches [] (World.begin []) ∧
      nodeParts? "hub_1_02" = some ("hub_1", "02") ∧
      nodeName "hub_1" "02" ≠ nodeName "hub" "+102" ∧
      ∀ (engine : Engine Unit) image env w,
        ¬ NodeRequest.Reaches ⟨engine, (), "hub", image, "1_02"⟩ env w := by
  have first : (requestFor "hub_1" "02").Reaches [] (World.begin []) := by
    unfold NodeRequest.Reaches
    decide +kernel
  have second : (requestFor "hub" "+102").Reaches [] (World.begin []) := by
    unfold NodeRequest.Reaches
    decide +kernel
  have shared : nodeName "hub_1" "02" = nodeName "hub" "1_02" := by decide
  have different : "hub_1" ≠ "hub" := by decide
  obtain ⟨parts, apart⟩ := node_names_are_uniquely_decodable _ _ _ first _ _ _ second
  refine ⟨shared, first, second, parts, fun same => ?_, fun engine image env w third => ?_⟩
  · exact different (apart.mp same).1
  · obtain ⟨-, alone⟩ := node_names_are_uniquely_decodable _ _ _ first _ env w third
    exact different (alone.mp shared).1

end NodeFleet
