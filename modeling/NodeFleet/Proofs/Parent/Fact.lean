import NodeFleet.Proofs.Parent.Resolution
/-!
The facts about the parent as one. A fact that is known is handed out as it is and costs nothing;
one that is not is looked up, and known from then on. So what has been asked about the parent is
bounded by what is known of it.
-/

set_option autoImplicit false
namespace NodeFleet
variable {σ : Type}

inductive Fact
  | network
  | mounts
  | proxy
deriving DecidableEq

inductive Query
  | listing
  | inspection
  | host
deriving DecidableEq

def Query.asks : Query → Call → Bool
  | .listing, .listContainers _ => true
  | .inspection, .inspect _ => true
  | .host, .info => true
  | _, _ => false

namespace Fact

@[reducible] def Value : Fact → Type
  | .network => NodeNetwork
  | .mounts => Except ConfigurationError (List MountBinding)
  | .proxy => ProxyVariables

def known? : (f : Fact) → ParentView → Option f.Value
  | .network, v => v.network
  | .mounts, v => v.mounts
  | .proxy, v => v.proxy

def learn : (f : Fact) → f.Value → ParentView → ParentView
  | .network, n, v => { v with network := some n }
  | .mounts, m, v => { v with mounts := some m }
  | .proxy, p, v => { v with proxy := some p }

def find (engine : Engine σ) (parent : String) : (f : Fact) → Action σ f.Value
  | .network => Action.findNetwork engine parent
  | .mounts => Action.findMounts engine parent
  | .proxy => Action.findProxy engine parent

def get (engine : Engine σ) (parent : String) : (f : Fact) → Action σ f.Value
  | .network => Action.network engine parent
  | .mounts => Action.mountBindings engine parent
  | .proxy => Action.proxyVariables engine parent

def cost : (f : Fact) → f.Value → Query → Nat
  | .network, n, .host => if NodeNetwork.isHostMode n.mode then 1 else 0
  | _, _, .host => 0
  | _, _, _ => 1

def spent (f : Fact) (v : ParentView) (q : Query) : Nat := ((f.known? v).map (f.cost · q)).getD 0

end Fact

/-- How often a query is made at most to find out all that is known. -/
def ParentView.spent (v : ParentView) (q : Query) : Nat :=
  Fact.network.spent v q + Fact.mounts.spent v q + Fact.proxy.spent v q

def ParentView.Within (v v' : ParentView) : Prop :=
  ∀ (f : Fact) (x : f.Value), f.known? v = some x → f.known? v' = some x

namespace ParentView
variable {v v' v'' : ParentView}

theorem Within.refl : v.Within v := fun _ _ h => h

theorem Within.trans (h : v.Within v') (h' : v'.Within v'') : v.Within v'' :=
  fun f x known => h' f x (h f x known)

end ParentView

namespace Fact
variable {f g : Fact} {v : ParentView}

theorem known?_learn (x : f.Value) : f.known? (f.learn x v) = some x := by cases f <;> rfl

theorem known?_learn_of_ne (h : g ≠ f) (x : f.Value) :
    g.known? (f.learn x v) = g.known? v := by
  cases f <;> cases g <;> first | rfl | exact absurd rfl h

theorem within_learn (h : f.known? v = none) (x : f.Value) : v.Within (f.learn x v) := by
  intro g y known
  by_cases hg : g = f
  · subst hg
    rw [h] at known
    cases known
  · rwa [known?_learn_of_ne hg]

theorem spent_learn (h : f.known? v = none) (x : f.Value) (q : Query) :
    (f.learn x v).spent q = v.spent q + f.cost x q := by
  cases f <;> simp only [known?] at h <;>
    simp [ParentView.spent, spent, known?, learn, h] <;> omega

theorem cost_le (x : f.Value) (q : Query) : f.cost x q ≤ 1 := by
  unfold cost
  split
  · split <;> omega
  · omega
  · omega

theorem spent_le (q : Query) : f.spent v q ≤ 1 := by
  rw [spent]
  cases f.known? v with
  | none => exact Nat.zero_le 1
  | some x => exact cost_le x q

theorem cost_listing (x : f.Value) : f.cost x .listing = 1 := by cases f <;> rfl

theorem cost_inspection (x : f.Value) : f.cost x .inspection = 1 := by cases f <;> rfl

end Fact

namespace ParentView

theorem spent_le (v : ParentView) (q : Query) : v.spent q ≤ 3 := by
  have network := Fact.spent_le (f := .network) (v := v) q
  have mounts := Fact.spent_le (f := .mounts) (v := v) q
  have proxy := Fact.spent_le (f := .proxy) (v := v) q
  rw [spent]
  omega

theorem spent_host (v : ParentView) : v.spent .host = Fact.network.spent v .host := by
  have mounts : Fact.mounts.spent v .host = 0 := by
    rw [Fact.spent, Fact.known?]
    cases v.mounts <;> rfl
  have proxy : Fact.proxy.spent v .host = 0 := by
    rw [Fact.spent, Fact.known?]
    cases v.proxy <;> rfl
  rw [spent, mounts, proxy, Nat.add_zero]

theorem shared_of_spent_host {v : ParentView} (h : 0 < v.spent .host) :
    ∃ n, v.network = some n ∧ NodeNetwork.isHostMode n.mode := by
  rw [spent_host, Fact.spent, Fact.known?] at h
  cases known : v.network with
  | none => simp [known] at h
  | some n =>
    refine ⟨n, rfl, ?_⟩
    cases shared : NodeNetwork.isHostMode n.mode with
    | true => rfl
    | false => simp [known, Fact.cost, shared] at h

end ParentView

namespace Action
variable (engine : Engine σ)

theorem containerId_passes (name : String) (w : World σ) : ∃ events,
    World.Passes engine w (containerId engine name w).2 events ∧
      events.filterMap Event.call? = [.listContainers true] := by
  have asked := call_passes engine (.listContainers true) w
  rw [containerId, bind_apply]
  cases (call engine (.listContainers true) w).1 with
  | ok listing => exact ⟨_, asked, rfl⟩
  | error f => exact ⟨_, asked.trans (note_passes engine (.lookupFailed f) _), rfl⟩

theorem inspectParent_passes (parent : String) (w : World σ) : ∃ events lookup,
    World.Passes engine w (inspectParent engine parent w).2 events ∧
      events.filterMap Event.call? = .listContainers true :: lookup ∧
      (lookup = [] ∨ ∃ id, lookup = [.inspect id]) := by
  obtain ⟨events, listed, calls⟩ := containerId_passes engine parent w
  rw [inspectParent, bind_apply]
  cases (containerId engine parent w).1 with
  | none =>
    refine ⟨_, [], listed.trans (note_passes engine (.parentNotFound parent) _), ?_, .inl rfl⟩
    rw [List.filterMap_append, calls]
    rfl
  | some id =>
    have asked := listed.trans (call_passes engine (.inspect id) _)
    dsimp only
    rw [bind_apply]
    cases (call engine (.inspect id) (containerId engine parent w).2).1 with
    | ok detail =>
      refine ⟨_, [.inspect id], asked, ?_, .inr ⟨id, rfl⟩⟩
      rw [List.filterMap_append, calls]
      rfl
    | error f =>
      have noted := asked.trans (note_passes engine (.parentInspectionFailed parent f) _)
      refine ⟨_, [.inspect id], noted, ?_, .inr ⟨id, rfl⟩⟩
      rw [List.filterMap_append, List.filterMap_append, calls]
      rfl

theorem findMounts_passes (parent : String) (w : World σ) : ∃ events lookup,
    World.Passes engine w (findMounts engine parent w).2 events ∧
      events.filterMap Event.call? = .listContainers true :: lookup ∧
      (lookup = [] ∨ ∃ id, lookup = [.inspect id]) := by
  obtain ⟨events, lookup, found, calls, shape⟩ := inspectParent_passes engine parent w
  let detail := inspectParent engine parent w
  have noted (n : Note) : (events ++ [Event.noted n]).filterMap Event.call? =
      .listContainers true :: lookup := by
    rw [List.filterMap_append, calls]
    exact List.append_nil _
  rw [findMounts, bind_apply]
  dsimp only
  cases MountBinding.ofMounts ((detail.1.map (·.mounts)).getD []) with
  | ok bs =>
    exact ⟨_, lookup, found.trans (note_passes engine (.mountsResolved bs.length) _), noted _, shape⟩
  | error e =>
    exact ⟨_, lookup, found.trans (note_passes engine (.mountsRejected e) _), noted _, shape⟩

theorem hostName_passes (w : World σ) : ∃ events,
    World.Passes engine w (hostName engine w).2 events ∧
      events.filterMap Event.call? = [.info] := by
  have asked := call_passes engine .info w
  rw [hostName, bind_apply]
  cases (call engine .info w).1 with
  | ok info => exact ⟨_, asked, rfl⟩
  | error f => exact ⟨_, asked.trans (note_passes engine (.hostNameFailed f) _), rfl⟩

theorem hostIfShared_passes (mode : String) (w : World σ) : ∃ events,
    World.Passes engine w
      ((if NodeNetwork.isHostMode mode then hostName engine else pure none) w).2 events ∧
      events.filterMap Event.call? = if NodeNetwork.isHostMode mode then [.info] else [] := by
  split
  · exact hostName_passes engine w
  · exact ⟨[], .refl, rfl⟩

end Action

theorem countP_lookup {lookup : List Call} (h : lookup = [] ∨ ∃ id, lookup = [.inspect id])
    (f : Fact) (x : f.Value) (q : Query) :
    (Call.listContainers true :: lookup).countP q.asks ≤ f.cost x q := by
  rcases h with rfl | ⟨id, rfl⟩ <;>
    cases q <;> simp [List.countP_cons, Query.asks, Fact.cost_listing, Fact.cost_inspection]

theorem countP_lookup_host {lookup : List Call} (h : lookup = [] ∨ ∃ id, lookup = [.inspect id])
    (n : NodeNetwork) (q : Query) :
    (Call.listContainers true :: lookup ++
      if NodeNetwork.isHostMode n.mode then [Call.info] else []).countP q.asks ≤
        Fact.network.cost n q := by
  have looked := countP_lookup h .network n q
  rw [List.countP_append]
  split
  · rename_i shared
    rcases h with rfl | ⟨id, rfl⟩ <;>
      cases q <;> simp [List.countP_cons, Query.asks, Fact.cost, shared]
  · exact looked

namespace Fact
variable (engine : Engine σ) (parent : String)

theorem find_network_passes (w : World σ) : ∃ events,
    World.Passes engine w (network.find engine parent w).2 events ∧
      ∀ q, (events.filterMap Event.call?).countP q.asks ≤
        network.cost (network.find engine parent w).1 q := by
  obtain ⟨events, lookup, found, calls, shape⟩ := Action.inspectParent_passes engine parent w
  let detail := Action.inspectParent engine parent w
  let mode := NodeNetwork.modeOf ((detail.1.map (·.networks)).getD [])
  obtain ⟨more, named, asked⟩ := Action.hostIfShared_passes engine mode detail.2
  let host := (if NodeNetwork.isHostMode mode then Action.hostName engine else pure none) detail.2
  let hosts := NodeNetwork.extraHostsFor mode host.1 ((detail.1.map (·.extraHosts)).getD [])
  have run : network.find engine parent w =
      (⟨mode, hosts⟩, (Action.note (.networkResolved mode hosts) host.2).2) := by
    simp only [find, Action.findNetwork, Action.bind_apply, hosts, host, mode, detail]
    split <;> rfl
  let told := Event.noted (.networkResolved mode hosts)
  have made : (events ++ more ++ [told]).filterMap Event.call? =
      .listContainers true :: lookup ++ if NodeNetwork.isHostMode mode then [.info] else [] := by
    rw [List.filterMap_append, List.filterMap_append, calls, asked]
    exact List.append_nil _
  rw [run]
  refine ⟨_, (found.trans named).trans (Action.note_passes engine _ _), fun q => ?_⟩
  rw [made]
  exact countP_lookup_host shape ⟨mode, hosts⟩ q

theorem find_mounts_passes (w : World σ) : ∃ events,
    World.Passes engine w (mounts.find engine parent w).2 events ∧
      ∀ q, (events.filterMap Event.call?).countP q.asks ≤
        mounts.cost (mounts.find engine parent w).1 q := by
  obtain ⟨events, lookup, found, calls, shape⟩ := Action.findMounts_passes engine parent w
  refine ⟨events, found, fun q => ?_⟩
  rw [calls]
  exact countP_lookup shape mounts _ q

theorem find_proxy_passes (w : World σ) : ∃ events,
    World.Passes engine w (proxy.find engine parent w).2 events ∧
      ∀ q, (events.filterMap Event.call?).countP q.asks ≤
        proxy.cost (proxy.find engine parent w).1 q := by
  obtain ⟨events, lookup, found, calls, shape⟩ := Action.inspectParent_passes engine parent w
  refine ⟨events, found, fun q => ?_⟩
  rw [calls]
  exact countP_lookup shape proxy _ q

/-- Looking a fact up costs what the fact may cost, and does not make it known by itself. -/
theorem find_passes (f : Fact) (w : World σ) : ∃ events,
    World.Passes engine w (f.find engine parent w).2 events ∧
      ∀ q, (events.filterMap Event.call?).countP q.asks ≤ f.cost (f.find engine parent w).1 q := by
  cases f with
  | network => exact find_network_passes engine parent w
  | mounts => exact find_mounts_passes engine parent w
  | proxy => exact find_proxy_passes engine parent w

variable {engine parent} {f : Fact} {w : World σ}

theorem get_of_known {x : f.Value} (h : f.known? w.parent = some x) :
    f.get engine parent w = (x, w) := by
  cases f with
  | network =>
    simp only [known?] at h
    simp only [get, Action.network, Action.bind_apply, Action.known, h]
    rfl
  | mounts =>
    simp only [known?] at h
    simp only [get, Action.mountBindings, Action.bind_apply, Action.known, h]
    rfl
  | proxy =>
    simp only [known?] at h
    simp only [get, Action.proxyVariables, Action.bind_apply, Action.known, h]
    rfl

theorem get_of_unknown (h : f.known? w.parent = none) :
    f.get engine parent w = ((f.find engine parent w).1,
      { (f.find engine parent w).2 with
        parent := f.learn (f.find engine parent w).1 (f.find engine parent w).2.parent }) := by
  cases f with
  | network =>
    simp only [known?] at h
    simp only [get, Action.network, Action.bind_apply, Action.known, h]
    rfl
  | mounts =>
    simp only [known?] at h
    simp only [get, Action.mountBindings, Action.bind_apply, Action.known, h]
    rfl
  | proxy =>
    simp only [known?] at h
    simp only [get, Action.proxyVariables, Action.bind_apply, Action.known, h]
    rfl

end Fact

/-- Leads on to where no less is known of the parent, and asks for no more than it then costs. -/
structure World.Learns (engine : Engine σ) (w w' : World σ) (events : List Event) : Prop
    extends World.Leads engine w w' events where
  within : w.parent.Within w'.parent
  spent : ∀ q : Query,
    (events.filterMap Event.call?).countP q.asks + w.parent.spent q ≤ w'.parent.spent q

section
variable {engine : Engine σ} {w w' w'' : World σ} {events more : List Event}

theorem World.Learns.trans (h : World.Learns engine w w' events)
    (h' : World.Learns engine w' w'' more) : World.Learns engine w w'' (events ++ more) := by
  refine { h.toLeads.trans h'.toLeads with within := h.within.trans h'.within, spent := ?_ }
  intro q
  have first := h.spent q
  have second := h'.spent q
  rw [List.filterMap_append, List.countP_append]
  omega

theorem World.Passes.learns (h : World.Passes engine w w' events)
    (quiet : ∀ c ∈ events.filterMap Event.call?, ∀ q : Query, q.asks c = false) :
    World.Learns engine w w' events := by
  refine { h.toLeads with within := ?_, spent := ?_ }
  · rw [h.parent]
    exact .refl
  · intro q
    have none : (events.filterMap Event.call?).countP q.asks = 0 := by
      rw [List.countP_eq_zero]
      intro c mem asked
      rw [quiet c mem q] at asked
      cases asked
    exact Nat.le_of_eq (by rw [none, h.parent, Nat.zero_add])

theorem Fact.get_learns (f : Fact) (engine : Engine σ) (parent : String) (w : World σ) :
    ∃ events, World.Learns engine w (f.get engine parent w).2 events := by
  cases h : f.known? w.parent with
  | some x =>
    rw [get_of_known h]
    exact ⟨[], World.Passes.refl.learns (by simp)⟩
  -- the look itself passes by what is known; only then is the answer kept
  | none =>
    obtain ⟨events, passes, asked⟩ := f.find_passes engine parent w
    rw [get_of_unknown h]
    refine ⟨events, ⟨passes.trace, passes.engine⟩, ?_, ?_⟩
    · rw [passes.parent]
      exact within_learn h _
    · intro q
      rw [passes.parent, spent_learn h]
      have := asked q
      omega

theorem Fact.known?_of_get {f : Fact} {parent : String} {x : f.Value}
    (h : f.get engine parent w = (x, w')) : f.known? w'.parent = some x := by
  cases known : f.known? w.parent with
  | some y =>
    obtain ⟨rfl, rfl⟩ := Prod.mk.inj ((get_of_known known).symm.trans h)
    exact known
  | none =>
    obtain ⟨rfl, rfl⟩ := Prod.mk.inj ((get_of_unknown known).symm.trans h)
    exact known?_learn _

theorem Fact.known?_of_get_other {f g : Fact} {parent : String} {x : f.Value}
    (h : f.get engine parent w = (x, w')) (ne : g ≠ f) :
    g.known? w'.parent = g.known? w.parent := by
  cases known : f.known? w.parent with
  | some y =>
    obtain ⟨rfl, rfl⟩ := Prod.mk.inj ((get_of_known known).symm.trans h)
    rfl
  | none =>
    obtain ⟨events, passes, -⟩ := f.find_passes engine parent w
    obtain ⟨rfl, rfl⟩ := Prod.mk.inj ((get_of_unknown known).symm.trans h)
    exact (known?_learn_of_ne ne _).trans (by rw [passes.parent])

end
end NodeFleet
