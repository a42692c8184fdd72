import Mathlib.Data.List.Forall2
import NodeFleet.Proofs.Parent.Mounts

set_option autoImplicit false
namespace NodeFleet
namespace MountBinding

variable {m : Mount} {mounts : List Mount}

inductive Offends : Mount → ConfigurationError → Prop
  | root (source : String) : Offends ⟨source, nodeRoot⟩ rootRefused
  | path (source d p : String) (locked : p ∈ protectedPaths) (same : sameIgnoringCase p d = true) :
      Offends ⟨source, nodeRoot ++ d⟩ pathRefused

def isBelow (m : Mount) : Bool := (nodeRoot ++ "/").toList.isPrefixOf m.destination.toList

structure Retargets (m : Mount) (b : MountBinding) : Prop where
  source : b.hostSource = m.source
  destination : nodeRoot ++ b.containerDestination = m.destination

theorem isBelow_iff : isBelow m = true ↔
    ∃ r, m.destination = nodeRoot ++ String.ofList ('/' :: r) := by
  have lists (r : List Char) : (nodeRoot ++ "/").toList ++ r =
      (nodeRoot ++ String.ofList ('/' :: r)).toList := by
    simp only [String.toList_append, List.append_assoc, String.toList_ofList]
    rfl
  rw [isBelow, List.isPrefixOf_iff_prefix]
  refine exists_congr fun r => ?_
  rw [lists, String.toList_inj, eq_comm]

theorem belowNodeRoot?_slash (r : List Char) :
    belowNodeRoot? (nodeRoot ++ String.ofList ('/' :: r)) = some (String.ofList ('/' :: r)) := by
  have lists : (nodeRoot ++ String.ofList ('/' :: r)).toList = nodeRoot.toList ++ '/' :: r := by
    rw [String.toList_append, String.toList_ofList]
  have front : nodeRoot.toList.isPrefixOf (nodeRoot.toList ++ '/' :: r) = true :=
    List.isPrefixOf_iff_prefix.mpr (List.prefix_append _ _)
  rw [belowNodeRoot?, lists, if_pos front, List.drop_left]
  rfl

theorem slash_of_isProtected {d : String} (h : isProtected d = true) :
    ∃ r, d = String.ofList ('/' :: r) := by
  obtain ⟨p, mem, same⟩ := List.any_eq_true.mp h
  have slashes : ∀ p ∈ protectedPaths, (p.toList.map Char.toLower).head? = some '/' := by decide
  have first := slashes p mem
  rw [beq_iff_eq.mp same] at first
  cases chars : d.toList with
  | nil =>
    rw [chars] at first
    cases first
  | cons c r =>
    rw [chars] at first
    have slash := Path.toLower_eq_slash (Option.some.inj first)
    refine ⟨r, String.toList_injective ?_⟩
    rw [chars, slash, String.toList_ofList]

theorem ofMount_of_offends {e : ConfigurationError} (h : Offends m e) : ofMount m = .error e := by
  cases h with
  | root source =>
    have below : belowNodeRoot? nodeRoot = some "" := by decide
    rw [ofMount, below]
    rfl
  | path source d p locked same =>
    have isLocked : isProtected d = true := List.any_eq_true.mpr ⟨p, locked, same⟩
    obtain ⟨r, rfl⟩ := slash_of_isProtected isLocked
    have below := belowNodeRoot?_slash r
    have some : String.ofList ('/' :: r) ≠ "" := by
      intro none
      simpa using congrArg String.toList none
    simp only [ofMount, below, if_neg some, if_pos isLocked]

inductive Treats (m : Mount) : Except ConfigurationError (Option MountBinding) → Prop
  | refuses (e : ConfigurationError) (offends : Offends m e) : Treats m (.error e)
  | passes (above : isBelow m = false) : Treats m (.ok none)
  | binds (b : MountBinding) (below : isBelow m = true) (retargets : Retargets m b) :
      Treats m (.ok (some b))

theorem ofMount_treats (m : Mount) : Treats m (ofMount m) := by
  cases below : belowNodeRoot? m.destination with
  | none =>
    have above : isBelow m = false := by
      refine Bool.eq_false_iff.mpr fun below' => ?_
      obtain ⟨r, same⟩ := isBelow_iff.mp below'
      rw [same, belowNodeRoot?_slash] at below
      cases below
    have passes : ofMount m = .ok none := by rw [ofMount, below]
    rw [passes]
    exact .passes above
  | some d =>
    obtain ⟨source, destination⟩ := m
    obtain ⟨whole, kind⟩ := belowNodeRoot?_eq_some below
    change destination = _ at whole
    subst whole
    by_cases empty : d = ""
    · subst empty
      rw [String.append_empty]
      have offends := Offends.root source
      rw [ofMount_of_offends offends]
      exact .refuses _ offends
    · by_cases locked : isProtected d = true
      · obtain ⟨p, mem, same⟩ := List.any_eq_true.mp locked
        have offends := Offends.path source d p mem same
        rw [ofMount_of_offends offends]
        exact .refuses _ offends
      · have binds : ofMount ⟨source, nodeRoot ++ d⟩ = .ok (some ⟨source, d⟩) := by
          simp only [ofMount, below, if_neg empty, if_neg locked]
        rw [binds]
        obtain ⟨r, slash⟩ := kind.resolve_left empty
        exact .binds _ (isBelow_iff.mpr ⟨r, by rw [slash]⟩) ⟨rfl, rfl⟩

theorem offends_iff {e : ConfigurationError} : Offends m e ↔ ofMount m = .error e := by
  refine ⟨ofMount_of_offends, fun refused => ?_⟩
  have treats := ofMount_treats m
  rw [refused] at treats
  cases treats with
  | refuses _ offends => exact offends

theorem not_offends_of_ok {b : Option MountBinding} (h : ofMount m = .ok b)
    (e : ConfigurationError) : ¬ Offends m e := by
  intro offends
  cases h.symm.trans (ofMount_of_offends offends)

theorem Retargets.unique {b c : MountBinding} (h : Retargets m b) (h' : Retargets m c) : b = c := by
  obtain ⟨source, destination⟩ := b
  obtain ⟨source', destination'⟩ := c
  have sources : source = source' := h.source.trans h'.source.symm
  have destinations : destination = destination' :=
    (String.append_right_inj _).mp (h.destination.trans h'.destination.symm)
  rw [sources, destinations]

theorem ofMounts_eq_ok_iff {bindings : List MountBinding} :
    ofMounts mounts = .ok bindings ↔ (∀ m ∈ mounts, ∀ e, ¬ Offends m e) ∧
      List.Forall₂ Retargets (mounts.filter isBelow) bindings := by
  induction mounts generalizing bindings with
  | nil => simp [ofMounts, eq_comm]
  | cons m mounts ih =>
    rw [ofMounts, List.forall_mem_cons, List.filter_cons]
    generalize done : ofMount m = outcome
    have treats := ofMount_treats m
    rw [done] at treats
    cases treats with
    | refuses e offends =>
      refine iff_of_false (fun ok => ?_) fun allowed => allowed.1.1 e offends
      cases ok
    | passes above =>
      rw [if_neg (Bool.not_eq_true _ ▸ above), ih, and_iff_right (not_offends_of_ok done)]
    | binds b below retargets =>
      rw [if_pos below, and_iff_right (not_offends_of_ok done)]
      constructor
      · intro ok
        cases rest : ofMounts mounts with
        | error e =>
          rw [rest] at ok
          cases ok
        | ok bs =>
          rw [rest] at ok
          obtain ⟨allowed, handed⟩ := ih.mp rest
          exact ⟨allowed, Except.ok.inj ok ▸ .cons retargets handed⟩
      · rintro ⟨allowed, handed⟩
        cases handed with
        | cons first others => rw [ih.mpr ⟨allowed, others⟩, retargets.unique first]

theorem ofMounts_eq_error_iff_first {e : ConfigurationError} :
    ofMounts mounts = .error e ↔ ∃ before m after, mounts = before ++ m :: after ∧
      (∀ x ∈ before, ∀ e, ¬ Offends x e) ∧ Offends m e := by
  constructor
  · intro refused
    induction mounts with
    | nil => cases refused
    | cons m mounts ih =>
      rw [ofMounts] at refused
      cases done : ofMount m with
      | error f =>
        rw [done] at refused
        obtain rfl := Except.error.inj refused
        exact ⟨[], m, mounts, rfl, by simp, offends_iff.mpr done⟩
      | ok b =>
        have rest : ofMounts mounts = .error e := by
          rw [done] at refused
          cases b with
          | none => exact refused
          | some b =>
            cases rest : ofMounts mounts with
            | error f => rwa [rest] at refused
            | ok bs =>
              rw [rest] at refused
              cases refused
        obtain ⟨before, x, after, rfl, allowed, offends⟩ := ih rest
        exact ⟨m :: before, x, after, rfl,
          List.forall_mem_cons.mpr ⟨not_offends_of_ok done, allowed⟩, offends⟩
  · rintro ⟨before, m, after, rfl, allowed, offends⟩
    induction before with
    | nil => rw [List.nil_append, ofMounts, ofMount_of_offends offends]
    | cons x before ih =>
      obtain ⟨own, others⟩ := List.forall_mem_cons.mp allowed
      rw [List.cons_append, ofMounts, ih others]
      cases done : ofMount x with
      | error f => exact absurd (offends_iff.mpr done) (own f)
      | ok b => cases b <;> rfl

end MountBinding

open MountBinding

/-- Resolving the mounts of a parent fails if and only if one of them offends, with the error of the
first that does. Otherwise there is one binding for each mount below the folder of the nodes, in
their order, and each has its mount's source and what follows that folder in its destination. -/
theorem mounts_are_refused_or_handed_on (mounts : List Mount) :
    ((∃ e, ofMounts mounts = .error e) ↔ ∃ m ∈ mounts, ∃ e, Offends m e) ∧
      (∀ e, ofMounts mounts = .error e ↔ ∃ before m after, mounts = before ++ m :: after ∧
        (∀ x ∈ before, ∀ e, ¬ Offends x e) ∧ Offends m e) ∧
      ∀ bindings, ofMounts mounts = .ok bindings ↔ (∀ m ∈ mounts, ∀ e, ¬ Offends m e) ∧
        List.Forall₂ Retargets (mounts.filter isBelow) bindings := by
  refine ⟨⟨?_, ?_⟩, fun e => ofMounts_eq_error_iff_first, fun bindings => ofMounts_eq_ok_iff⟩
  · rintro ⟨e, refused⟩
    obtain ⟨before, m, after, rfl, -, offends⟩ := ofMounts_eq_error_iff_first.mp refused
    exact ⟨m, List.mem_append_right _ List.mem_cons_self, e, offends⟩
  · rintro ⟨m, mem, e, offends⟩
    cases done : ofMounts mounts with
    | error f => exact ⟨f, rfl⟩
    | ok bindings => exact absurd offends ((ofMounts_eq_ok_iff.mp done).1 m mem e)

example : ofMounts [⟨"/a", "/tmp/nodes/x"⟩, ⟨"/b", "/tmp/node/x"⟩] = .ok [⟨"/b", "/x"⟩] := by decide

end NodeFleet
