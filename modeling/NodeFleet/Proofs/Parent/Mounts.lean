import NodeFleet.Proofs.Node.Retry
import NodeFleet.Proofs.Parent.Path
import NodeFleet.Proofs.Parent.Refusal

set_option autoImplicit false
namespace NodeFleet
variable {σ : Type}

namespace MountBinding

/-- Leads to the root or to a protected path. -/
def Overrides (destination : String) : Prop :=
  Path.normal destination = "/" ∨ isProtected (Path.normal destination) = true

def inherited? (m : Mount) : Option MountBinding :=
  (belowNodeRoot? m.destination).map fun d => ⟨m.source, d⟩

def Refused (m : Mount) : Prop :=
  ∃ d, belowNodeRoot? m.destination = some d ∧ (d = "" ∨ isProtected d = true)

theorem belowNodeRoot?_eq_some {destination d : String} (h : belowNodeRoot? destination = some d) :
    destination = nodeRoot ++ d ∧ (d = "" ∨ ∃ r, d = String.ofList ('/' :: r)) := by
  unfold belowNodeRoot? at h
  split at h
  · rename_i below
    obtain ⟨rest, split⟩ := List.isPrefixOf_iff_prefix.mp below
    rw [← split, List.drop_left] at h
    have whole (d : String) (same : d.toList = rest) : destination = nodeRoot ++ d := by
      refine String.toList_injective ?_
      rw [← split, String.toList_append, same]
    split at h
    · obtain rfl := Option.some.inj h
      exact ⟨whole "" rfl, .inl rfl⟩
    · rename_i r
      obtain rfl := Option.some.inj h
      exact ⟨whole _ String.toList_ofList, .inr ⟨r, rfl⟩⟩
    · cases h
  · cases h

theorem plain_of_isProtected {d : String} (h : isProtected d = true) : Path.Plain d := by
  obtain ⟨p, mem, same⟩ := List.any_eq_true.mp h
  have low : ∃ r, p.toList.map Char.toLower = '/' :: r ∧
      ∀ s ∈ piecesAt '/' r, Path.IsName s := by
    simp only [protectedPaths, List.mem_cons, List.not_mem_nil, or_false] at mem
    rcases mem with rfl | rfl | rfl
    · exact ⟨"var/run/docker.sock".toList, by decide, by decide⟩
    · exact ⟨"home/seluser/videos".toList, by decide, by decide⟩
    · exact ⟨"dev/shm".toList, by decide, by decide⟩
  obtain ⟨r, lower, all⟩ := low
  exact Path.plain_of_lower ((beq_iff_eq.mp same).symm.trans lower) all

theorem plain_below_iff (r : List Char) :
    Path.Plain (nodeRoot ++ String.ofList ('/' :: r)) ↔
      ∀ s ∈ piecesAt '/' r, Path.IsName s := by
  have pieces : piecesAt '/' (("tmp/node/".toList ++ r)) =
      "tmp".toList :: "node".toList :: piecesAt '/' r := rfl
  have text : nodeRoot ++ String.ofList ('/' :: r) =
      String.ofList ('/' :: ("tmp/node/".toList ++ r)) := by
    refine String.toList_injective ?_
    rw [String.toList_append, String.toList_ofList, String.toList_ofList]
    rfl
  rw [text]
  constructor
  · intro plain s mem
    refine Path.isName_of_plain_cons plain (by simp) s ?_
    rw [pieces]
    exact List.mem_cons_of_mem _ (List.mem_cons_of_mem _ mem)
  · intro all
    refine Path.plain_cons ?_
    rw [pieces]
    exact List.forall_mem_cons.mpr ⟨by decide, List.forall_mem_cons.mpr ⟨by decide, all⟩⟩

/-- A protected path is recognised in its plain spelling and in no other. -/
theorem isProtected_iff (r : List Char) : isProtected (String.ofList ('/' :: r)) = true ↔
    Path.Plain (nodeRoot ++ String.ofList ('/' :: r)) ∧ Overrides (String.ofList ('/' :: r)) := by
  rw [plain_below_iff]
  constructor
  · intro locked
    have plain := plain_of_isProtected locked
    have some : r ≠ [] := by
      rintro rfl
      exact absurd locked (by decide)
    refine ⟨Path.isName_of_plain_cons plain some, .inr ?_⟩
    rwa [show Path.normal _ = _ from plain]
  · rintro ⟨all, root | locked⟩
    · rw [show Path.normal _ = _ from Path.plain_cons all] at root
      have lists := congrArg String.toList root
      rw [String.toList_ofList] at lists
      obtain rfl : r = [] := (List.cons.inj lists).2
      exact absurd rfl (all [] (by simp [piecesAt])).ne_nil
    · rwa [show Path.normal _ = _ from Path.plain_cons all] at locked

theorem refused_iff (m : Mount) : Refused m ↔ Path.Plain m.destination ∧
    ∃ d, belowNodeRoot? m.destination = some d ∧ Overrides d := by
  have shown (d : String) (below : belowNodeRoot? m.destination = some d) :
      d = "" ∨ isProtected d = true ↔ Path.Plain m.destination ∧ Overrides d := by
    obtain ⟨whole, empty | ⟨r, slash⟩⟩ := belowNodeRoot?_eq_some below
    · rw [whole, empty]
      exact iff_of_true (.inl rfl) ⟨by decide, .inl (by decide)⟩
    · have some : d ≠ "" := by
        rintro rfl
        simpa using congrArg String.toList slash
      rw [or_iff_right some, whole, slash]
      exact isProtected_iff r
  constructor
  · rintro ⟨d, below, refused⟩
    obtain ⟨plain, overrides⟩ := (shown d below).mp refused
    exact ⟨plain, d, below, overrides⟩
  · rintro ⟨plain, d, below, overrides⟩
    exact ⟨d, below, (shown d below).mpr ⟨plain, overrides⟩⟩

theorem ofMount_of_refused {m : Mount} (h : Refused m) : ∃ e, ofMount m = .error e := by
  obtain ⟨d, below, refused⟩ := h
  by_cases empty : d = ""
  · exact ⟨rootRefused, by simp [ofMount, below, empty]⟩
  · exact ⟨pathRefused, by simp [ofMount, below, empty, refused.resolve_left empty]⟩

theorem ofMount_of_allowed {m : Mount} (h : ¬ Refused m) : ofMount m = .ok (inherited? m) := by
  cases below : belowNodeRoot? m.destination with
  | none => simp [ofMount, inherited?, below]
  | some d =>
    obtain ⟨some, allowed⟩ := not_or.mp fun refused => h ⟨d, below, refused⟩
    simp [ofMount, inherited?, below, some, allowed]

theorem ofMounts_of_refused {mounts : List Mount} (h : ∃ m ∈ mounts, Refused m) :
    ∃ e, ofMounts mounts = .error e := by
  induction mounts with
  | nil => simp at h
  | cons m r ih =>
    by_cases first : Refused m
    · obtain ⟨e, refused⟩ := ofMount_of_refused first
      exact ⟨e, by rw [ofMounts, refused]⟩
    · obtain ⟨e, refused⟩ := ih (by simpa [first] using h)
      rw [ofMounts, ofMount_of_allowed first, refused]
      cases inherited? m with
      | none => exact ⟨e, rfl⟩
      | some b => exact ⟨e, rfl⟩

theorem ofMounts_of_allowed {mounts : List Mount} (h : ∀ m ∈ mounts, ¬ Refused m) :
    ofMounts mounts = .ok (mounts.filterMap inherited?) := by
  induction mounts with
  | nil => rfl
  | cons m r ih =>
    obtain ⟨first, rest⟩ := List.forall_mem_cons.mp h
    rw [ofMounts, ofMount_of_allowed first, ih rest, List.filterMap_cons]
    cases inherited? m with
    | none => rfl
    | some b => rfl

theorem ofMounts_eq_error_iff (mounts : List Mount) :
    (∃ e, ofMounts mounts = .error e) ↔ ∃ m ∈ mounts, Refused m := by
  constructor
  · rintro ⟨e, refused⟩
    refine Classical.byContradiction fun none => ?_
    rw [ofMounts_of_allowed fun m mem locked => none ⟨m, mem, locked⟩] at refused
    cases refused
  · exact ofMounts_of_refused

end MountBinding

/-- What nodes inherit of these mounts. All that is meant for them is bound, and what overrides the
root or a protected path is not spelled plainly. -/
structure Inherits (mounts : List Mount) (bindings : List MountBinding) : Prop where
  all : bindings = mounts.filterMap MountBinding.inherited?
  disguised : ∀ b ∈ bindings, MountBinding.Overrides b.containerDestination →
    ¬ Path.Plain (MountBinding.nodeRoot ++ b.containerDestination)

theorem inherits_of_ok {mounts : List Mount} {bindings : List MountBinding}
    (h : MountBinding.ofMounts mounts = .ok bindings) : Inherits mounts bindings := by
  have allowed : ∀ m ∈ mounts, ¬ MountBinding.Refused m := by
    intro m mem refused
    obtain ⟨e, error⟩ := MountBinding.ofMounts_of_refused ⟨m, mem, refused⟩
    cases error.symm.trans h
  obtain rfl := Except.ok.inj ((MountBinding.ofMounts_of_allowed allowed).symm.trans h)
  refine ⟨rfl, fun b mem overrides plain => ?_⟩
  obtain ⟨m, listed, inherited⟩ := List.mem_filterMap.mp mem
  obtain ⟨d, below, rfl⟩ := Option.map_eq_some_iff.mp inherited
  obtain ⟨whole, -⟩ := MountBinding.belowNodeRoot?_eq_some below
  refine allowed m listed ((MountBinding.refused_iff m).mpr ⟨?_, d, below, overrides⟩)
  rwa [whole]

theorem Session.mounts_found (start : σ) (turns : List (Turn σ)) {bindings : List MountBinding}
    (known : (Session.after (World.begin start) turns).parent.mounts = some (.ok bindings)) :
    ∃ mounts, MountBinding.ofMounts mounts = .ok bindings := by
  have met := Session.meets .mounts turns (World.begin start)
  change Meets .mounts none _ (Session.after (World.begin start) turns).parent.mounts at met
  rw [known] at met
  generalize Session.needs .mounts (World.begin start) turns = needs at met
  generalize found : some (Except.ok bindings : Except ConfigurationError _) = value at met
  cases met with
  | unused => cases found
  | first n rest looked later =>
    have answer := Action.findMounts_answer n.engine n.parent n.world
    exact ⟨_, answer.symm.trans (Option.some.inj found).symm⟩

/-- Mounts are refused exactly if one of those meant for nodes overrides the root or a protected path
and is spelled plainly; otherwise all are bound. So a node's root or a protected path is overridden
only by a mount that is spelled in another way, and beside the mounts of a parent there is one
binding, the shared memory. -/
theorem overriding_mounts_are_disguised (start : σ) (turns : List (Turn σ)) :
    (∀ mounts : List Mount,
      ((∃ e, MountBinding.ofMounts mounts = .error e) ↔ ∃ m ∈ mounts, Path.Plain m.destination ∧
        ∃ d, MountBinding.belowNodeRoot? m.destination = some d ∧ MountBinding.Overrides d) ∧
      ∀ bindings, MountBinding.ofMounts mounts = .ok bindings → Inherits mounts bindings) ∧
    ∀ spec ∈ (Session.after (World.begin start) turns).submitted, ∃ mounts bindings,
      Inherits mounts bindings ∧
        spec.binds = bindings.map MountBinding.render ++ ["/dev/shm:/dev/shm"] := by
  refine ⟨fun mounts => ⟨?_, fun bindings => inherits_of_ok⟩, fun spec mem => ?_⟩
  · rw [MountBinding.ofMounts_eq_error_iff]
    simp only [MountBinding.refused_iff]
  · have fits := Session.fits turns (World.begin start) (fun spec mem => by cases mem) spec mem
    obtain ⟨bindings, known, binds⟩ := fits.mounts
    obtain ⟨mounts, found⟩ := Session.mounts_found start turns known
    exact ⟨mounts, bindings, inherits_of_ok found, binds⟩

def mountedHub (destination : String) : Engine Unit := fun c s =>
  match c with
  | .inspect id => (.ok ⟨id, "/hub", [], [⟨"/srv/x", destination⟩], [], "", []⟩, s)
  | c => hostShelf c s

/-- One slash at the end, and the host's folder is bound over the shared memory. -/
theorem overriding_mounts_are_disguised_slash :
    let create : NodeOperation := .create "hub" "node:latest" [] "5555"
    let last := Session.after (World.begin ()) [⟨mountedHub "/tmp/node/dev/shm/", (), create⟩]
    (∃ e, MountBinding.ofMounts [⟨"/srv/x", "/tmp/node/DEV/SHM"⟩] = .error e) ∧
      Inherits [⟨"/srv/x", "/tmp/node/dev/shm/"⟩] [⟨"/srv/x", "/dev/shm/"⟩] ∧
      MountBinding.Overrides "/dev/shm/" ∧
      last.submitted.map (·.binds) = [["/srv/x:/dev/shm/", "/dev/shm:/dev/shm"]] ∧
      ∀ spec ∈ last.submitted, ∃ mounts bindings, Inherits mounts bindings ∧
        spec.binds = bindings.map MountBinding.render ++ ["/dev/shm:/dev/shm"] := by
  intro create last
  obtain ⟨resolved, created⟩ := overriding_mounts_are_disguised ()
    [⟨mountedHub "/tmp/node/dev/shm/", (), create⟩]
  refine ⟨(resolved _).1.mpr ?_, (resolved _).2 _ rfl, .inr (by decide), by decide +kernel, created⟩
  exact ⟨_, List.mem_singleton_self _, by decide, "/DEV/SHM", rfl, .inr (by decide)⟩

end NodeFleet
