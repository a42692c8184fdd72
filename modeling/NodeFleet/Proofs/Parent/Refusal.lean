import NodeFleet.Proofs.Parent.Fact

set_option autoImplicit false
namespace NodeFleet
variable {σ : Type}

/-- The parent is found and inspected. -/
def Inspects (engine : Engine σ) (parent : String) (state : σ) (detail : Detail) : Prop :=
  ∃ listing id, (engine (.listContainers true) state).1 = .ok listing ∧
    idByName? listing parent = some id ∧
    (engine (.inspect id) (engine (.listContainers true) state).2).1 = .ok detail

/-- The parent is found and inspected, and its mounts are an error. -/
def Forbids (engine : Engine σ) (parent : String) (state : σ) (e : ConfigurationError) : Prop :=
  ∃ detail, Inspects engine parent state detail ∧ MountBinding.ofMounts detail.mounts = .error e

theorem Inspects.unique {engine : Engine σ} {parent : String} {state : σ} {detail other : Detail}
    (h : Inspects engine parent state detail) (h' : Inspects engine parent state other) :
    detail = other := by
  obtain ⟨listing, id, listed, found, inspected⟩ := h
  obtain ⟨listing', id', listed', found', inspected'⟩ := h'
  obtain rfl := Except.ok.inj (listed.symm.trans listed')
  obtain rfl := Option.some.inj (found.symm.trans found')
  exact Except.ok.inj (inspected.symm.trans inspected')

theorem Forbids.unique {engine : Engine σ} {parent : String} {state : σ} {e e' : ConfigurationError}
    (h : Forbids engine parent state e) (h' : Forbids engine parent state e') : e = e' := by
  obtain ⟨detail, inspected, refused⟩ := h
  obtain ⟨detail', inspected', refused'⟩ := h'
  obtain rfl := inspected.unique inspected'
  exact Except.error.inj (refused.symm.trans refused')

namespace Action
variable (engine : Engine σ)

theorem containerId_engine (name : String) (w : World σ) :
    (containerId engine name w).2.engine = (engine (.listContainers true) w.engine).2 := by
  obtain ⟨events, passes, calls⟩ := containerId_passes engine name w
  rw [passes.engine, calls]
  rfl

theorem inspectParent_eq_some (parent : String) (w : World σ) (detail : Detail) :
    (inspectParent engine parent w).1 = some detail ↔ Inspects engine parent w.engine detail := by
  have answer := containerId_answer engine parent w
  have after := containerId_engine engine parent w
  rw [inspectParent, bind_apply, Inspects]
  generalize containerId engine parent w = looked at answer after
  obtain ⟨id, w'⟩ := looked
  dsimp only at answer after ⊢
  cases listed : (engine (.listContainers true) w.engine).1 with
  | error f =>
    rw [listed] at answer
    obtain rfl : id = none := answer
    simp [bind_apply, pure_apply]
  | ok listing =>
    rw [listed] at answer
    obtain rfl : id = idByName? listing parent := answer
    cases found : idByName? listing parent with
    | none => simp [bind_apply, pure_apply, found]
    | some id =>
      dsimp only
      rw [bind_apply, call_answer, after]
      cases inspected : (engine (.inspect id) (engine (.listContainers true) w.engine).2).1 with
      | ok other => simp [pure_apply, found, inspected]
      | error f => simp [bind_apply, pure_apply, found, inspected]

theorem findMounts_answer (parent : String) (w : World σ) :
    (findMounts engine parent w).1 =
      MountBinding.ofMounts (((inspectParent engine parent w).1.map (·.mounts)).getD []) := by
  rw [findMounts, bind_apply]
  dsimp only
  cases MountBinding.ofMounts (((inspectParent engine parent w).1.map (·.mounts)).getD []) <;> rfl

/-- A parent that is not found or not inspected has no mounts, so it is not refused. -/
theorem findMounts_eq_error {parent : String} {w : World σ} {e : ConfigurationError} :
    (findMounts engine parent w).1 = .error e ↔ Forbids engine parent w.engine e := by
  have inspects := inspectParent_eq_some engine parent w
  rw [findMounts_answer, Forbids]
  cases seen : (inspectParent engine parent w).1 with
  | none =>
    have unseen : ¬ ∃ detail, Inspects engine parent w.engine detail ∧
        MountBinding.ofMounts detail.mounts = .error e := by
      rintro ⟨detail, inspected, -⟩
      cases seen.symm.trans ((inspects detail).mpr inspected)
    refine iff_of_false ?_ unseen
    rintro ⟨⟩
  | some detail =>
    constructor
    · intro refused
      exact ⟨detail, (inspects detail).mp seen, refused⟩
    · rintro ⟨other, inspected, refused⟩
      obtain rfl := Option.some.inj (seen.symm.trans ((inspects other).mpr inspected))
      exact refused

end Action
end NodeFleet
