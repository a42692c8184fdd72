import NodeFleet.Proofs.Node.Submission
import NodeFleet.Proofs.Node.Upkeep
/-!
The operations of provisioning and their needs for facts about the parent. One operation meets each
need from what is known, or makes known what it finds; what it answers and what it submits agree
with what is known afterwards.
-/

set_option autoImplicit false
namespace NodeFleet
variable {σ : Type}

inductive NodeOperation
  | create (parent image : String) (env : Table String) (port : String)
  | stop (id : String)
  | execute (id : String) (command : List String) (wait : Bool)
  | copy (id folder : String)
  | register (parent : String) (url : Url)
  | find (name : String)
  | address (name : String)
  | newestImage (image : String)
  | count (image : String)
  | tell (f : Fact) (parent : String)

namespace NodeOperation

@[reducible] def Answer : NodeOperation → Type
  | create .. => Creation
  | stop _ => Unit
  | execute .. => Option String
  | copy .. => Option Archive
  | register .. => Registration
  | find _ | address _ => Option String
  | newestImage _ => String
  | count _ => Nat
  | tell f _ => f.Value

def run (engine : Engine σ) : (o : NodeOperation) → Action σ o.Answer
  | create parent image env port => Action.createContainer engine parent image env port
  | stop id => Action.stopContainer engine id
  | execute id command wait => Action.executeCommand engine id command wait
  | copy id folder => Action.copyFiles engine id folder
  | register parent url => Action.registerNode engine parent url
  | find name => Action.containerId engine name
  | address name => Action.containerAddress engine name
  | newestImage image => Action.latestImage engine image
  | count image => Action.runningContainers engine image
  | tell f parent => f.get engine parent

def consultsParent : NodeOperation → Bool
  | create .. | tell .. => true
  | _ => false

end NodeOperation

/-- A point at which a fact is needed: the engine and the name of the parent as they are there. -/
structure Need (σ : Type) where
  engine : Engine σ
  parent : String
  world : World σ

namespace Need

def get (n : Need σ) (f : Fact) : f.Value × World σ := f.get n.engine n.parent n.world

def find (n : Need σ) (f : Fact) : f.Value × World σ := f.find n.engine n.parent n.world

/-- Where a creation with settled ports needs a fact; the mounts may forbid it before the others. -/
def ofCreation (engine : Engine σ) (parent : String) (w : World σ) (f : Fact) : List (Need σ) :=
  let asked := Action.mountBindings engine parent w
  match f, asked.1 with
  | .mounts, _ => [⟨engine, parent, w⟩]
  | _, .error _ => []
  | .network, .ok _ => [⟨engine, parent, asked.2⟩]
  | .proxy, .ok _ => [⟨engine, parent, (Action.network engine parent asked.2).2⟩]

def ofOperation (engine : Engine σ) (w : World σ) (f : Fact) : NodeOperation → List (Need σ)
  | .create parent _ env port =>
    if (NodeSpec.ports? env port).isSome then ofCreation engine parent w f else []
  | .tell g parent => if g = f then [⟨engine, parent, w⟩] else []
  | _ => []

end Need

/-- How the needs of a fact are met, from what is known of it before to what is known after: the
first look settles it, and from then on the world stays as it is. -/
inductive Meets (f : Fact) : Option f.Value → List (Need σ) → Option f.Value → Prop
  | unused : Meets f none [] none
  | known (x : f.Value) (needs : List (Need σ)) (all : ∀ n ∈ needs, n.get f = (x, n.world)) :
      Meets f (some x) needs (some x)
  | first (n : Need σ) (needs : List (Need σ)) (found : (n.get f).1 = (n.find f).1)
      (later : ∀ m ∈ needs, m.get f = ((n.find f).1, m.world)) :
      Meets f none (n :: needs) (some (n.find f).1)

namespace Meets
variable {f : Fact} {a b c : Option f.Value} {needs more : List (Need σ)}

theorem refl : Meets f a ([] : List (Need σ)) a := by
  cases a with
  | none => exact .unused
  | some x => exact .known x [] (by simp)

theorem trans (h : Meets f a needs b) (h' : Meets f b more c) : Meets f a (needs ++ more) c := by
  cases h with
  | unused => exact h'
  | known x ns all =>
    cases h' with
    | known x ms all' =>
      refine .known x _ fun n mem => ?_
      rcases List.mem_append.mp mem with mem | mem
      · exact all n mem
      · exact all' n mem
  | first n ns found later =>
    cases h' with
    | known x ms all' =>
      refine .first n _ found fun m mem => ?_
      rcases List.mem_append.mp mem with mem | mem
      · exact later m mem
      · exact all' m mem

theorem of_get {engine : Engine σ} {parent : String} {w w' : World σ} {x : f.Value}
    (h : f.get engine parent w = (x, w')) :
    Meets f (f.known? w.parent) [⟨engine, parent, w⟩] (f.known? w'.parent) := by
  rw [Fact.known?_of_get h]
  cases known : f.known? w.parent with
  | some y =>
    have kept : f.get engine parent w = (y, w) := Fact.get_of_known known
    obtain rfl : y = x := congrArg Prod.fst (kept.symm.trans h)
    refine .known y _ fun n mem => ?_
    rw [List.mem_singleton.mp mem]
    exact kept
  | none =>
    have found : (f.get engine parent w).1 = (f.find engine parent w).1 := by
      rw [Fact.get_of_unknown known]
    obtain rfl : (f.find engine parent w).1 = x := found.symm.trans (congrArg Prod.fst h)
    exact .first ⟨engine, parent, w⟩ [] found (by simp)

theorem of_get_other {g : Fact} {engine : Engine σ} {parent : String} {w w' : World σ}
    {x : g.Value} (h : g.get engine parent w = (x, w')) (ne : f ≠ g) :
    Meets f (f.known? w.parent) ([] : List (Need σ)) (f.known? w'.parent) := by
  rw [Fact.known?_of_get_other h ne]
  exact .refl

end Meets

structure Fits (v : ParentView) (spec : Spec) : Prop where
  network : v.network = some ⟨spec.networkMode, spec.extraHosts⟩
  mounts : ∃ bindings, v.mounts = some (.ok bindings) ∧
    spec.binds = bindings.map MountBinding.render ++ [NodeSpec.sharedMemoryBind]
  proxy : ∃ proxy env, v.proxy = some proxy ∧ spec.env = env ++ proxy.entries

def Shows (v : ParentView) : (o : NodeOperation) → o.Answer → Prop
  | .tell f _, x => f.known? v = some x
  | .create .., c => ∀ e, c.outcome = .error e → v.mounts = some (.error e)
  | _, _ => True

section
variable {v v' : ParentView}

theorem Fits.mono {spec : Spec} (h : Fits v spec) (within : v.Within v') : Fits v' spec where
  network := within .network _ h.network
  mounts := by
    obtain ⟨bindings, known, binds⟩ := h.mounts
    exact ⟨bindings, within .mounts _ known, binds⟩
  proxy := by
    obtain ⟨proxy, env, known, entries⟩ := h.proxy
    exact ⟨proxy, env, within .proxy _ known, entries⟩

theorem Shows.mono {o : NodeOperation} {x : o.Answer} (h : Shows v o x) (within : v.Within v') :
    Shows v' o x := by
  cases o with
  | tell f parent => exact within f _ h
  | create parent image env port => exact fun e error => within .mounts _ (h e error)
  | stop | execute | copy | register | find | address | newestImage | count => trivial

end

theorem fits_build {engine : Engine σ} {parent : String} {w asked named settled : World σ}
    {bindings : List MountBinding} {n : NodeNetwork} {p : ProxyVariables} (name image : String)
    (env : Table String) (port preview : Port)
    (mounts : Fact.mounts.get engine parent w = (.ok bindings, asked))
    (network : Fact.network.get engine parent asked = (n, named))
    (proxy : Fact.proxy.get engine parent named = (p, settled)) :
    Fits settled.parent (NodeSpec.build name image env port preview bindings n p) where
  network := (Fact.known?_of_get_other proxy (by decide : Fact.network ≠ .proxy)).trans
    (Fact.known?_of_get network)
  mounts := by
    have first := Fact.known?_of_get mounts
    have second := Fact.known?_of_get_other network (by decide : Fact.mounts ≠ .network)
    have third := Fact.known?_of_get_other proxy (by decide : Fact.mounts ≠ .proxy)
    exact ⟨bindings, third.trans (second.trans first), rfl⟩
  proxy := ⟨p, _, Fact.known?_of_get proxy, rfl⟩

namespace Creates
variable {engine : Engine σ} {parent image : String} {env : Table String} {portText : String}
  {w : World σ} {r : Creation × World σ}

theorem learns (h : Creates engine parent image env portText w r) :
    ∃ events, World.Learns engine w r.2 events := by
  cases h with
  | refused ports n =>
    obtain ⟨events, passes, aside⟩ := Action.failCreation_makes engine image env
      (.ok (.failed (nodeName parent portText))) (Action.note n w).2
    refine ⟨_, ((Action.note_passes engine n w).trans passes).learns ?_⟩
    rwa [List.filterMap_append]
  | forbidden port preview ports e asked mounts =>
    obtain ⟨looked, learns⟩ := Fact.mounts.get_learns engine parent w
    obtain ⟨events, passes, aside⟩ := Action.failCreation_makes engine image env
      (.error e) asked
    rw [mounts] at learns
    exact ⟨_, learns.trans (passes.learns aside)⟩
  | submitted port preview ports bindings n p asked named settled mounts network proxy given =>
    obtain ⟨first, learns⟩ := Fact.mounts.get_learns engine parent w
    obtain ⟨second, learns'⟩ := Fact.network.get_learns engine parent asked
    obtain ⟨third, learns''⟩ := Fact.proxy.get_learns engine parent named
    let spec := NodeSpec.build (nodeName parent portText) image given port preview bindings n p
    obtain ⟨events, passes, aside⟩ :=
      Action.submit_makes engine spec portText preview given settled
    rw [mounts] at learns
    rw [network] at learns'
    rw [proxy] at learns''
    exact ⟨_, ((learns.trans learns').trans learns'').trans (passes.learns aside)⟩

theorem meets (h : Creates engine parent image env portText w r) (f : Fact) :
    Meets f (f.known? w.parent)
      (Need.ofOperation engine w f (.create parent image env portText)) (f.known? r.2.parent) := by
  cases h with
  | refused ports n =>
    simp only [Need.ofOperation, ports]
    exact .refl
  | forbidden port preview ports e asked mounts =>
    have looked : Action.mountBindings engine parent w = (.error e, asked) := mounts
    rw [Action.failCreation_parent]
    simp only [Need.ofOperation, ports, Option.isSome_some, if_true, Need.ofCreation, looked]
    cases f with
    | mounts => exact .of_get mounts
    | network => exact .of_get_other mounts (by decide)
    | proxy => exact .of_get_other mounts (by decide)
  | submitted port preview ports bindings n p asked named settled mounts network proxy given =>
    have looked : Action.mountBindings engine parent w = (.ok bindings, asked) := mounts
    have looked' : Action.network engine parent asked = (n, named) := network
    rw [Action.submit_parent]
    simp only [Need.ofOperation, ports, Option.isSome_some, if_true, Need.ofCreation, looked,
      looked']
    cases f with
    | mounts =>
      exact ((Meets.of_get mounts).trans (.of_get_other network (by decide))).trans
        (.of_get_other proxy (by decide))
    | network =>
      exact ((Meets.of_get_other mounts (by decide)).trans (.of_get network)).trans
        (.of_get_other proxy (by decide))
    | proxy =>
      exact ((Meets.of_get_other mounts (by decide)).trans
        (.of_get_other network (by decide))).trans (.of_get proxy)

theorem shows (h : Creates engine parent image env portText w r) :
    Shows r.2.parent (.create parent image env portText) r.1 := by
  intro e error
  cases h with
  | refused ports n => cases error
  | forbidden port preview ports e' asked mounts =>
    obtain rfl := Except.error.inj error
    exact Fact.known?_of_get mounts
  | submitted port preview ports bindings n p asked named settled mounts network proxy given =>
    exact absurd error (Action.submit_outcome_ne_error engine _ _ _ _ _ e)

theorem submits (h : Creates engine parent image env portText w r) : ∃ specs,
    r.2.submitted = w.submitted ++ specs ∧ ∀ spec ∈ specs, Fits r.2.parent spec := by
  cases h with
  | refused ports n =>
    refine ⟨[], ?_, by simp⟩
    rw [Action.failCreation_submitted, Action.note_submitted, List.append_nil]
  | forbidden port preview ports e asked mounts =>
    refine ⟨[], ?_, by simp⟩
    rw [Action.failCreation_submitted, Fact.get_submitted mounts, List.append_nil]
  | submitted port preview ports bindings n p asked named settled mounts network proxy given =>
    refine ⟨[NodeSpec.build (nodeName parent portText) image given port preview bindings n p],
      ?_, fun spec mem => ?_⟩
    · rw [Action.submit_submitted, Fact.submitted_settled mounts network proxy]
    · rw [List.mem_singleton.mp mem, Action.submit_parent]
      exact fits_build _ _ _ _ _ mounts network proxy

end Creates

namespace NodeOperation
variable (engine : Engine σ)

theorem run_makes {o : NodeOperation} (h : o.consultsParent = false) :
    Action.Makes engine (fun c => c.spec? = none) (o.run engine) := by
  cases o with
  | create parent image env port => cases h
  | tell f parent => cases h
  | stop id => exact (Action.stopContainer_makes engine id).mono (by rintro _ rfl; rfl)
  | execute id command wait =>
    exact (Action.executeCommand_makes engine id command wait).mono (by rintro _ rfl; rfl)
  | copy id folder => exact (Action.copyFiles_makes engine id folder).mono (by rintro _ rfl; rfl)
  | register parent url =>
    exact (Action.registerNode_makes engine parent url).mono (by rintro _ rfl; rfl)
  | find name => exact (Action.containerId_makes engine name).mono (by rintro _ rfl; rfl)
  | address name =>
    exact (Action.containerAddress_makes engine name).mono (by rintro _ (rfl | ⟨id, rfl⟩) <;> rfl)
  | newestImage image =>
    exact (Action.latestImage_makes engine image).mono (by rintro _ rfl; rfl)
  | count image => exact (Action.runningContainers_makes engine image).mono (by rintro _ rfl; rfl)

theorem run_parent {o : NodeOperation} (h : o.consultsParent = false) (w : World σ) :
    (o.run engine w).2.parent = w.parent := by
  obtain ⟨events, passes, -⟩ := run_makes engine h w
  exact passes.parent

theorem run_learns {o : NodeOperation} (h : o.consultsParent = true) (w : World σ) :
    ∃ events, World.Learns engine w (o.run engine w).2 events := by
  cases o with
  | create parent image env port =>
    exact (Action.createContainer_creates engine parent image env port w).learns
  | tell f parent => exact f.get_learns engine parent w
  | stop | execute | copy | register | find | address | newestImage | count => cases h

theorem within_run (o : NodeOperation) (w : World σ) :
    w.parent.Within (o.run engine w).2.parent := by
  cases consults : o.consultsParent with
  | true =>
    obtain ⟨events, learns⟩ := run_learns engine consults w
    exact learns.within
  | false =>
    rw [run_parent engine consults]
    exact .refl

theorem run_meets (o : NodeOperation) (f : Fact) (w : World σ) :
    Meets f (f.known? w.parent) (Need.ofOperation engine w f o)
      (f.known? (o.run engine w).2.parent) := by
  have aside (consults : o.consultsParent = false) : Meets f (f.known? w.parent)
      ([] : List (Need σ)) (f.known? (o.run engine w).2.parent) := by
    rw [run_parent engine consults]
    exact .refl
  cases o with
  | create parent image env port =>
    exact (Action.createContainer_creates engine parent image env port w).meets f
  | tell g parent =>
    by_cases same : g = f
    · subst same
      simp only [Need.ofOperation, if_true]
      exact .of_get rfl
    · simp only [Need.ofOperation, if_neg same]
      exact .of_get_other rfl (Ne.symm same)
  | stop | execute | copy | register | find | address | newestImage | count => exact aside rfl

theorem run_shows (o : NodeOperation) (w : World σ) :
    Shows (o.run engine w).2.parent o (o.run engine w).1 := by
  cases o with
  | create parent image env port =>
    exact (Action.createContainer_creates engine parent image env port w).shows
  | tell f parent => exact Fact.known?_of_get rfl
  | stop | execute | copy | register | find | address | newestImage | count => trivial

theorem run_submits (o : NodeOperation) (w : World σ) : ∃ specs,
    (o.run engine w).2.submitted = w.submitted ++ specs ∧
      ∀ spec ∈ specs, Fits (o.run engine w).2.parent spec := by
  have aside (consults : o.consultsParent = false) :
      (o.run engine w).2.submitted = w.submitted ++ [] := by
    obtain ⟨events, passes, made⟩ := run_makes engine consults w
    rw [passes.toLeads.submitted, List.filterMap_eq_nil_iff.mpr made]
  cases o with
  | create parent image env port =>
    exact (Action.createContainer_creates engine parent image env port w).submits
  | tell f parent =>
    exact ⟨[], (Fact.get_submitted rfl).trans (List.append_nil _).symm, by simp⟩
  | stop | execute | copy | register | find | address | newestImage | count =>
    exact ⟨[], aside rfl, by simp⟩

end NodeOperation

end NodeFleet
