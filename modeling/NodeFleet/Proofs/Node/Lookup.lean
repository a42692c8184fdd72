import NodeFleet.Proofs.Daemon.Networks
import NodeFleet.Proofs.Node.Recognition

set_option autoImplicit false
namespace NodeFleet
variable {σ : Type}

def firstNames (listing : List Summary) : List String := listing.filterMap (·.names.head?)

namespace Summary

/-- The first name is this one up to the case of ASCII letters. -/
def Matches (s : Summary) (listed : String) : Prop :=
  ∃ n, s.names.head? = some n ∧ lowerAscii n = lowerAscii listed

theorem answersTo_iff {s : Summary} {listed : String} :
    s.answersTo listed = true ↔ s.Matches listed := by
  rw [answersTo, Matches]
  cases s.names with
  | nil => simp
  | cons n r => simp [sameIgnoringCase_iff]

end Summary

theorem eq_of_first_name {listing : List Summary} (distinct : (firstNames listing).Nodup)
    {s t : Summary} (hs : s ∈ listing) (ht : t ∈ listing) {n : String}
    (named : s.names.head? = some n) (same : t.names.head? = some n) : s = t := by
  let Agree (s t : Summary) : Prop := s.names.head? = some n → t.names.head? = some n → s = t
  have agree : listing.Pairwise Agree :=
    (List.pairwise_filterMap.mp distinct).imp fun other own own' => absurd rfl (other n own n own')
  have back : listing.Pairwise (flip Agree) :=
    agree.imp fun same own own' => (same own' own).symm
  exact List.Pairwise.forall_of_forall_of_flip (fun _ _ _ _ => rfl) agree back hs ht named same

/-- The first container of a listing that answers to a name. -/
structure FirstMatch (listing : List Summary) (listed : String) (d : Summary) : Prop where
  own : d.Matches listed
  first : ∃ before after, listing = before ++ d :: after ∧ ∀ t ∈ before, ¬ t.Matches listed

theorem firstMatch_of_find? {listing : List Summary} {listed : String} {d : Summary}
    (h : listing.find? (·.answersTo listed) = some d) : FirstMatch listing listed d := by
  obtain ⟨own, before, after, split, skipped⟩ := List.find?_eq_some_iff_append.mp h
  refine ⟨Summary.answersTo_iff.mp own, before, after, split, fun t mem hit => ?_⟩
  have missed := skipped t mem
  rw [Summary.answersTo_iff.mpr hit] at missed
  cases missed

section
variable {before after : List Summary} {s : Summary} {listed : String}

/-- Whether the container of exactly a name comes first is a matter of those before it. -/
theorem find?_eq_own_iff (distinct : (firstNames (before ++ s :: after)).Nodup)
    (named : s.names.head? = some listed) :
    (before ++ s :: after).find? (·.answersTo listed) = some s ↔
      ∀ t ∈ before, ¬ t.Matches listed := by
  have own : s.answersTo listed = true := Summary.answersTo_iff.mpr ⟨listed, named, rfl⟩
  have elsewhere : s ∉ before := by
    intro mem
    rw [firstNames, List.filterMap_append] at distinct
    have early : listed ∈ before.filterMap (·.names.head?) :=
      List.mem_filterMap.mpr ⟨s, mem, named⟩
    have late : listed ∈ (s :: after).filterMap (·.names.head?) :=
      List.mem_filterMap.mpr ⟨s, List.mem_cons_self, named⟩
    exact (List.nodup_append.mp distinct).2.2 listed early listed late rfl
  rw [List.find?_append, List.find?_cons, own]
  cases found : before.find? (·.answersTo listed) with
  | none =>
    refine iff_of_true rfl fun t mem hit => ?_
    exact List.find?_eq_none.mp found t mem (Summary.answersTo_iff.mpr hit)
  | some t =>
    have mem := List.mem_of_find?_eq_some found
    have answers := List.find?_some found
    have hit : t.Matches listed := Summary.answersTo_iff.mp answers
    refine iff_of_false ?_ fun none => none t mem hit
    rintro ⟨⟩
    exact elsewhere mem

end

namespace Action

/-- All who ask for a container by this name are answered with this id: about its id, about its
address, as for a parent, and at the registration of a node that is called so. -/
structure Finds (engine : Engine σ) (w : World σ) (name id : String) : Prop where
  containerId : (containerId engine name w).1 = some id
  parent : (inspectParent engine name w).1 =
    (engine (.inspect id) (engine (.listContainers true) w.engine).2).1.toOption
  parent_calls : (inspectParent engine name w).2.calls =
    w.calls ++ [.listContainers true, .inspect id]
  address : (containerAddress engine name w).1 = (inspectParent engine name w).1.bind Detail.address?
  address_calls : (containerAddress engine name w).2.calls =
    w.calls ++ [.listContainers true, .inspect id]
  registered : ∀ parent (url : Url) p q, url.effectivePort? = some p → p.preview? = some q →
    nodeName parent p.text = name → (registerNode engine parent url w).1 = ⟨some id, some q⟩

theorem inspect_calls (engine : Engine σ) (id : String) {w w' : World σ}
    (listed : w'.calls = w.calls ++ [.listContainers true]) :
    (call engine (.inspect id) w').2.calls = w.calls ++ [.listContainers true, .inspect id] := by
  rw [(call_leads engine (.inspect id) w').calls, listed, List.append_assoc]
  rfl

theorem Finds.of_containerId {engine : Engine σ} {w : World σ} {name id : String}
    (found : (Action.containerId engine name w).1 = some id) : Finds engine w name id where
  containerId := found
  parent := by
    have after := containerId_engine engine name w
    rw [inspectParent, bind_apply, found]
    dsimp only
    rw [bind_apply, call_answer, after]
    cases (engine (.inspect id) (engine (.listContainers true) w.engine).2).1 <;> rfl
  parent_calls := by
    have asked := inspect_calls engine id (containerId_calls engine name w)
    rw [inspectParent, bind_apply, found]
    dsimp only
    rw [bind_apply, ← asked]
    cases (call engine (.inspect id) (Action.containerId engine name w).2).1 with
    | ok detail => rfl
    | error f => exact note_calls _ _
  address := containerAddress_answer engine name w
  address_calls := by
    have asked := inspect_calls engine id (containerId_calls engine name w)
    rw [containerAddress, bind_apply, found]
    dsimp only
    rw [bind_apply, ← asked]
    cases (call engine (.inspect id) (Action.containerId engine name w).2).1 with
    | ok detail => rfl
    | error f => exact note_calls _ _
  registered parent url p q port room named := by
    rw [(registerNode_of_preview engine parent port room w).1, named, found]

end Action

/-- The container of exactly a name is the one that is found by it, unless another, whose first name
differs from this one in letter case only, is listed before it: then the first of these is. -/
theorem exact_name_is_found_unless_shadowed {before after : List Summary} {s : Summary}
    {name : String} (distinct : (firstNames (before ++ s :: after)).Nodup)
    (named : s.names.head? = some (listedName name)) :
    ∃ d, FirstMatch (before ++ s :: after) (listedName name) d ∧
      (d = s ↔ ∀ t ∈ before, ¬ t.Matches (listedName name)) ∧
      (d ≠ s → d.names.head? ≠ some (listedName name)) ∧
      ∀ (engine : Engine σ) (w : World σ),
        (engine (.listContainers true) w.engine).1 = .ok (before ++ s :: after) →
          Action.Finds engine w name d.id := by
  have listed : s ∈ before ++ s :: after := List.mem_append_right _ List.mem_cons_self
  have own : s.answersTo (listedName name) = true :=
    Summary.answersTo_iff.mpr ⟨_, named, rfl⟩
  have answered : ((before ++ s :: after).find? (·.answersTo (listedName name))).isSome = true :=
    List.find?_isSome.mpr ⟨s, listed, own⟩
  obtain ⟨d, found⟩ := Option.isSome_iff_exists.mp answered
  have first := find?_eq_own_iff distinct named
  rw [found, Option.some.injEq] at first
  refine ⟨d, firstMatch_of_find? found, first, fun other same => ?_, fun engine w lists => ?_⟩
  · exact other (eq_of_first_name distinct (List.mem_of_find?_eq_some found) listed same named)
  · refine .of_containerId ?_
    rw [Action.containerId_answer, lists]
    exact congrArg (Option.map (·.id)) found

def database : Summary := ⟨"db-id", ["/db"], "postgres", "running"⟩
def hub : Summary := ⟨"hub-id", ["/hub"], "dockgrid", "running"⟩

def twins : List Summary := [database, hub, ⟨"other-id", ["/HUB"], "dockgrid", "exited"⟩]

theorem exact_name_is_found_unless_shadowed_first :
    (firstNames twins).Nodup ∧ Action.Finds shelf (World.begin twins) "hub" "hub-id" := by
  have distinct : (firstNames twins).Nodup := by decide
  have named : hub.names.head? = some (listedName "hub") := by decide
  obtain ⟨d, -, own, -, finds⟩ :=
    @exact_name_is_found_unless_shadowed (List Summary) [database] _ hub "hub" distinct named
  have alone : ∀ t ∈ [database], ¬ t.Matches (listedName "hub") := by
    intro t mem
    rw [List.mem_singleton.mp mem, ← Summary.answersTo_iff]
    decide
  obtain rfl := own.mpr alone
  exact ⟨distinct, finds shelf (World.begin twins) rfl⟩

/-- Listed in the other order, the container of exactly this name is not the one that is found. -/
theorem not_every_exact_name_is_found :
    (firstNames twins.reverse).Nodup ∧
      hub ∈ twins.reverse ∧
      listedName "hub" = "/hub" ∧
      (Action.containerId shelf "hub" (World.begin twins.reverse)).1 = some "other-id" :=
  ⟨by decide, by decide, by decide, rfl⟩

end NodeFleet
