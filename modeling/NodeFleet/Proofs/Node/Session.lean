import NodeFleet.Proofs.Node.Operation

set_option autoImplicit false
namespace NodeFleet
variable {σ : Type}

/-- An operation, and the engine that is there for it. -/
structure Turn (σ : Type) where
  engine : Engine σ
  state : σ
  operation : NodeOperation

namespace Turn

def before (t : Turn σ) (w : World σ) : World σ := { w with engine := t.state }

def result (t : Turn σ) (w : World σ) : t.operation.Answer × World σ :=
  t.operation.run t.engine (t.before w)

def after (t : Turn σ) (w : World σ) : World σ := (t.result w).2

def calls (t : Turn σ) (w : World σ) : List Call := (t.after w).calls.drop w.calls.length

def parentCalls (t : Turn σ) (w : World σ) : List Call :=
  if t.operation.consultsParent then t.calls w else []

def needs (t : Turn σ) (w : World σ) (f : Fact) : List (Need σ) :=
  Need.ofOperation t.engine (t.before w) f t.operation

end Turn

namespace Session

def after (w : World σ) (turns : List (Turn σ)) : World σ := turns.foldl (fun w t => t.after w) w

/-- Everything that was asked in order to find out about the parent. -/
def parentCalls : World σ → List (Turn σ) → List Call
  | _, [] => []
  | w, t :: r => t.parentCalls w ++ parentCalls (t.after w) r

def needs (f : Fact) : World σ → List (Turn σ) → List (Need σ)
  | _, [] => []
  | w, t :: r => t.needs w f ++ needs f (t.after w) r

theorem within_after (turns : List (Turn σ)) (w : World σ) :
    w.parent.Within (after w turns).parent := by
  induction turns generalizing w with
  | nil => exact .refl
  | cons t r ih => exact (t.operation.within_run t.engine (t.before w)).trans (ih (t.after w))

theorem meets (f : Fact) (turns : List (Turn σ)) (w : World σ) :
    Meets f (f.known? w.parent) (needs f w turns) (f.known? (after w turns).parent) := by
  induction turns generalizing w with
  | nil => exact .refl
  | cons t r ih => exact (t.operation.run_meets t.engine f (t.before w)).trans (ih (t.after w))

theorem spent_turn (t : Turn σ) (w : World σ) (q : Query) :
    (t.parentCalls w).countP q.asks + w.parent.spent q ≤ (t.after w).parent.spent q := by
  rw [Turn.parentCalls]
  cases consults : t.operation.consultsParent with
  | false =>
    have same : (t.after w).parent = w.parent := t.operation.run_parent t.engine consults _
    simp [same]
  -- the calls that create and start a container are none of the queries
  | true =>
    obtain ⟨events, learns⟩ := t.operation.run_learns t.engine consults (t.before w)
    have made : t.calls w = events.filterMap Event.call? := by
      have grown : (t.after w).calls = w.calls ++ events.filterMap Event.call? := learns.calls
      rw [Turn.calls, grown, List.drop_left]
    rw [if_pos rfl, made]
    exact learns.spent q

theorem spent (turns : List (Turn σ)) (w : World σ) (q : Query) :
    (parentCalls w turns).countP q.asks + w.parent.spent q ≤ (after w turns).parent.spent q := by
  induction turns generalizing w with
  | nil => simp [parentCalls, after]
  | cons t r ih =>
    have now := spent_turn t w q
    have later := ih (t.after w)
    rw [parentCalls, List.countP_append]
    change _ ≤ (after (t.after w) r).parent.spent q
    omega

theorem shows (before rest : List (Turn σ)) (t : Turn σ) (w : World σ) :
    Shows (after w (before ++ t :: rest)).parent t.operation (t.result (after w before)).1 := by
  rw [after, List.foldl_append, List.foldl_cons]
  exact (t.operation.run_shows t.engine (t.before (after w before))).mono (within_after rest _)

theorem fits (turns : List (Turn σ)) (w : World σ) (h : ∀ spec ∈ w.submitted, Fits w.parent spec) :
    ∀ spec ∈ (after w turns).submitted, Fits (after w turns).parent spec := by
  induction turns generalizing w with
  | nil => exact h
  | cons t r ih =>
    obtain ⟨specs, grown, new⟩ := t.operation.run_submits t.engine (t.before w)
    refine ih (t.after w) fun spec mem => ?_
    have split : spec ∈ w.submitted ++ specs := grown ▸ mem
    rcases List.mem_append.mp split with old | mem
    · exact (h spec old).mono (t.operation.within_run t.engine (t.before w))
    · exact new spec mem

end Session

theorem exists_fit (v : ParentView) {specs : List Spec} (h : ∀ spec ∈ specs, Fits v spec) :
    ∃ (n : NodeNetwork) (binds : List String) (proxy : ProxyVariables), ∀ spec ∈ specs,
      spec.networkMode = n.mode ∧ spec.extraHosts = n.extraHosts ∧ spec.binds = binds ∧
        ∃ env, spec.env = env ++ proxy.entries := by
  cases specs with
  | nil => exact ⟨⟨"", []⟩, [], .empty, by simp⟩
  | cons s r =>
    have fit := h s (by simp)
    obtain ⟨proxy, -, known, -⟩ := fit.proxy
    refine ⟨⟨s.networkMode, s.extraHosts⟩, s.binds, proxy, fun spec mem => ?_⟩
    have other := h spec mem
    obtain ⟨mode, hosts⟩ :=
      NodeNetwork.mk.inj (Option.some.inj (other.network.symm.trans fit.network))
    obtain ⟨bindings, settled, binds⟩ := fit.mounts
    obtain ⟨bindings', settled', binds'⟩ := other.mounts
    obtain rfl := Except.ok.inj (Option.some.inj (settled'.symm.trans settled))
    obtain ⟨proxy', env, known', entries⟩ := other.proxy
    obtain rfl := Option.some.inj (known'.symm.trans known)
    exact ⟨mode, hosts, binds'.trans binds.symm, env, entries⟩

/-- Whatever is done in whatever order, on whatever engines, for parents of whatever names. -/
theorem parent_is_resolved_once (start : σ) (turns : List (Turn σ)) :
    let first := World.begin start
    let last := Session.after first turns
    let asked := Session.parentCalls first turns
    (∀ f : Fact, Meets f none (Session.needs f first turns) (f.known? last.parent)) ∧
    (∀ before t rest, turns = before ++ t :: rest →
      Shows last.parent t.operation (t.result (Session.after first before)).1) ∧
    asked.countP Query.listing.asks ≤ 3 ∧
    asked.countP Query.inspection.asks ≤ 3 ∧
    asked.countP Query.host.asks ≤ 1 ∧
    (0 < asked.countP Query.host.asks →
      ∃ n, last.parent.network = some n ∧ NodeNetwork.isHostMode n.mode) ∧
    (∀ spec ∈ last.submitted, Fits last.parent spec) ∧
    ∃ (n : NodeNetwork) (binds : List String) (proxy : ProxyVariables), ∀ spec ∈ last.submitted,
      spec.networkMode = n.mode ∧ spec.extraHosts = n.extraHosts ∧ spec.binds = binds ∧
        ∃ env, spec.env = env ++ proxy.entries := by
  intro first last asked
  have unknown : ∀ q, first.parent.spent q = 0 := fun q => by cases q <;> rfl
  have spent (q : Query) : asked.countP q.asks ≤ last.parent.spent q := by
    have h := Session.spent turns first q
    rw [unknown q] at h
    exact h
  have fits : ∀ spec ∈ last.submitted, Fits last.parent spec :=
    Session.fits turns first (fun spec mem => by cases mem)
  have host : last.parent.spent .host ≤ 1 := by
    rw [ParentView.spent_host]
    exact Fact.spent_le .host
  have few (q : Query) : asked.countP q.asks ≤ 3 :=
    Nat.le_trans (spent q) (last.parent.spent_le q)
  refine ⟨fun f => ?_, ?_, few _, few _, Nat.le_trans (spent _) host, fun named => ?_, fits,
    exists_fit _ fits⟩
  · have none : f.known? first.parent = none := by cases f <;> rfl
    have met := Session.meets f turns first
    rwa [none] at met
  · rintro before t rest rfl
    exact Session.shows before rest t first
  · exact ParentView.shared_of_spent_host (Nat.lt_of_lt_of_le named (spent .host))

end NodeFleet
