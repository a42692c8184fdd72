import NodeFleet.Node.Upkeep
import NodeFleet.Proofs.World

set_option autoImplicit false
namespace NodeFleet
namespace Action
variable {σ : Type} (engine : Engine σ)

theorem containerId_makes (name : String) :
    Makes engine (· = .listContainers true) (containerId engine name) := by
  refine .bind (.call rfl) fun listed => ?_
  cases listed with
  | ok listing => exact .pure _
  | error f => exact .bind (.note _) fun _ => .pure _

theorem stopContainer_makes (id : String) :
    Makes engine (· = .stop id stopGrace) (stopContainer engine id) := by
  refine .bind (.call rfl) fun stopped => ?_
  cases stopped with
  | ok _ => exact .bind (.note _) fun _ => .count _
  | error f => exact .note _

theorem executeCommand_makes (id : String) (command : List String) (wait : Bool) :
    Makes engine (· = .exec id command wait) (executeCommand engine id command wait) := by
  refine .bind (.note _) fun _ => .bind (.call rfl) fun output => ?_
  have lost (n : Note) : Makes engine (· = .exec id command wait) (do
      note n
      pure (none : Option String)) := .bind (.note n) fun _ => .pure _
  cases output with
  | ok text =>
    cases text with
    | none => exact .pure _
    | some text => exact .bind (.note _) fun _ => .pure _
  | error f => cases f <;> exact lost _

theorem copyFiles_makes (id folder : String) :
    Makes engine (· = .archive id folder) (copyFiles engine id folder) := by
  refine .bind (.call rfl) fun archive => ?_
  cases archive with
  | ok pieces => exact .pure _
  | error f => exact .bind (.note _) fun _ => .pure _

theorem registerNode_makes (parent : String) (url : Url) :
    Makes engine (· = .listContainers true) (registerNode engine parent url) := by
  rw [registerNode]
  cases url.effectivePort? with
  | none => exact .bind (.note _) fun _ => .pure _
  | some port =>
    dsimp only
    -- the note on a port that is only assumed comes before either way on
    have noted {rest : Action σ Registration} (h : Makes engine (· = .listContainers true) rest) :
        Makes engine (· = .listContainers true) (do
          if url.port.isNone then note (.defaultPortAssumed port.number)
          rest) := by
      split
      · exact .bind (.note _) fun _ => h
      · exact h
    cases port.preview? with
    | none => exact noted (.bind (.note _) fun _ => .pure _)
    | some preview => exact noted (.bind (containerId_makes engine _) fun _ => .pure _)

theorem containerAddress_makes (name : String) :
    Makes engine (fun c => c = .listContainers true ∨ ∃ id, c = .inspect id)
      (containerAddress engine name) := by
  refine .bind ((containerId_makes engine name).mono fun _ => .inl) fun found => ?_
  cases found with
  | none => exact .pure _
  | some id =>
    refine .bind (.call (.inr ⟨id, rfl⟩)) fun detail => ?_
    cases detail with
    | ok detail => exact .pure _
    | error f => exact .bind (.note _) fun _ => .pure _

theorem latestImage_makes (image : String) :
    Makes engine (· = .listImages image) (latestImage engine image) := by
  refine .bind (.call rfl) fun images => ?_
  cases images with
  | error f => exact .bind (.note _) fun _ => .pure _
  | ok images =>
    dsimp only
    split
    · exact .pure _
    · exact .bind (.note _) fun _ => .pure _

theorem runningContainers_makes (image : String) :
    Makes engine (· = .listContainers true) (runningContainers engine image) := by
  refine .bind (.call rfl) fun listed => ?_
  cases listed with
  | ok listing => exact .pure _
  | error f => exact .bind (.note _) fun _ => .pure _

end Action
end NodeFleet
