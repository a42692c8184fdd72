import NodeFleet.Parent.Resolution
import NodeFleet.Proofs.World

set_option autoImplicit false
namespace NodeFleet
namespace Action
variable {σ : Type} (engine : Engine σ)

theorem containerId_explores (name : String) :
    Emits engine Event.Explores (containerId engine name) := by
  refine .bind (.call trivial) fun answer => ?_
  cases answer with
  | ok listing => exact .pure _
  | error f => exact .bind (.note trivial) fun _ => .pure _

theorem inspectParent_explores (parent : String) :
    Emits engine Event.Explores (inspectParent engine parent) := by
  refine .bind (containerId_explores engine parent) fun id => ?_
  cases id with
  | none => exact .bind (.note trivial) fun _ => .pure _
  | some id =>
    refine .bind (.call trivial) fun answer => ?_
    cases answer with
    | ok detail => exact .pure _
    | error f => exact .bind (.note trivial) fun _ => .pure _

theorem hostName_explores : Emits engine Event.Explores (hostName engine) := by
  refine .bind (.call trivial) fun answer => ?_
  cases answer with
  | ok info => exact .pure _
  | error f => exact .bind (.note trivial) fun _ => .pure _

theorem findNetwork_explores (parent : String) :
    Emits engine Event.Explores (findNetwork engine parent) := by
  refine .bind (inspectParent_explores engine parent) fun detail => ?_
  dsimp only
  split
  · exact .bind (hostName_explores engine) fun host => .bind (.note trivial) fun _ => .pure _
  · exact .bind (.pure none) fun host => .bind (.note trivial) fun _ => .pure _

theorem findMounts_explores (parent : String) :
    Emits engine Event.Explores (findMounts engine parent) := by
  refine .bind (inspectParent_explores engine parent) fun detail => ?_
  dsimp only
  split
  · exact .bind (.note trivial) fun _ => .pure _
  · exact .bind (.note trivial) fun _ => .pure _

theorem findProxy_explores (parent : String) :
    Emits engine Event.Explores (findProxy engine parent) :=
  .bind (inspectParent_explores engine parent) fun _ => .pure _

theorem network_explores (parent : String) :
    Emits engine Event.Explores (network engine parent) := by
  refine .bind (.known _) fun fact => ?_
  cases fact with
  | some n => exact .pure n
  | none =>
    exact .bind (findNetwork_explores engine parent) fun _ => .bind (.learn _) fun _ => .pure _

theorem mountBindings_explores (parent : String) :
    Emits engine Event.Explores (mountBindings engine parent) := by
  refine .bind (.known _) fun fact => ?_
  cases fact with
  | some m => exact .pure m
  | none =>
    exact .bind (findMounts_explores engine parent) fun _ => .bind (.learn _) fun _ => .pure _

theorem proxyVariables_explores (parent : String) :
    Emits engine Event.Explores (proxyVariables engine parent) := by
  refine .bind (.known _) fun fact => ?_
  cases fact with
  | some p => exact .pure p
  | none =>
    exact .bind (findProxy_explores engine parent) fun _ => .bind (.learn _) fun _ => .pure _

theorem network_asks (parent : String) : Asks engine (network engine parent) :=
  (network_explores engine parent).asks

theorem mountBindings_asks (parent : String) : Asks engine (mountBindings engine parent) :=
  (mountBindings_explores engine parent).asks

theorem proxyVariables_asks (parent : String) : Asks engine (proxyVariables engine parent) :=
  (proxyVariables_explores engine parent).asks

theorem containerId_answer (name : String) (w : World σ) :
    (containerId engine name w).1 =
      ((engine (.listContainers true) w.engine).1.toOption).bind (idByName? · name) := by
  rw [containerId, bind_apply, call_answer]
  cases (engine (.listContainers true) w.engine).1 with
  | ok listing => rfl
  | error f => rfl

theorem mountBindings_known (parent : String) (w : World σ) :
    (mountBindings engine parent w).2.parent.mounts = some (mountBindings engine parent w).1 := by
  rw [mountBindings, bind_apply]
  cases h : w.parent.mounts with
  | none =>
    simp only [known, h]
    rfl
  | some m =>
    simp only [known, h]
    exact h

end Action
end NodeFleet
