import NodeFleet.World

set_option autoImplicit false
namespace NodeFleet
variable {σ : Type}

def Engine.after (engine : Engine σ) (state : σ) (calls : List Call) : σ :=
  calls.foldl (fun st c => (engine c st).2) state

/-- An action has led from a world to another by way of events. -/
structure World.Leads (engine : Engine σ) (w w' : World σ) (events : List Event) : Prop where
  trace : w'.trace = w.trace ++ events
  engine : w'.engine = Engine.after engine w.engine (events.filterMap Event.call?)

def Call.IsQuery : Call → Prop
  | .listContainers _ | .inspect _ | .listImages _ | .info => True
  | _ => False

def Event.Asks : Event → Prop
  | .called c => c.IsQuery
  | .noted _ => True
  | .counted _ => False

/-- A query, or a note that reports nothing about the fleet. -/
def Event.Explores : Event → Prop
  | .called c => c.IsQuery
  | .noted (.fleetStatus ..) => False
  | .noted _ => True
  | .counted _ => False

def Call.spec? : Call → Option Spec
  | .create spec => some spec
  | _ => none

/-- All containers that were asked for, in order. -/
def World.submitted (w : World σ) : List Spec := w.calls.filterMap Call.spec?

/-- Leads on and leaves what is known of the parent as it is. -/
structure World.Passes (engine : Engine σ) (w w' : World σ) (events : List Event) : Prop
    extends World.Leads engine w w' events where
  parent : w'.parent = w.parent

section
variable {engine : Engine σ} {w w' w'' : World σ} {events more : List Event}

theorem World.Leads.refl : World.Leads engine w w [] := ⟨by simp, rfl⟩

theorem World.Leads.trans (h : World.Leads engine w w' events)
    (h' : World.Leads engine w' w'' more) : World.Leads engine w w'' (events ++ more) := by
  constructor
  · rw [h'.trace, h.trace, List.append_assoc]
  · rw [h'.engine, h.engine, List.filterMap_append, Engine.after, Engine.after, Engine.after,
      List.foldl_append]

theorem World.Leads.calls (h : World.Leads engine w w' events) :
    w'.calls = w.calls ++ events.filterMap Event.call? := by
  rw [World.calls, h.trace, List.filterMap_append]
  rfl

theorem World.Leads.submitted (h : World.Leads engine w w' events) :
    w'.submitted = w.submitted ++ (events.filterMap Event.call?).filterMap Call.spec? := by
  rw [World.submitted, h.calls, List.filterMap_append]
  rfl

theorem World.Passes.refl : World.Passes engine w w [] := { World.Leads.refl with parent := rfl }

theorem World.Passes.trans (h : World.Passes engine w w' events)
    (h' : World.Passes engine w' w'' more) : World.Passes engine w w'' (events ++ more) :=
  { h.toLeads.trans h'.toLeads with parent := h'.parent.trans h.parent }

theorem Event.Explores.asks {e : Event} (h : e.Explores) : e.Asks := by
  cases e with
  | called c => exact h
  | noted n => trivial
  | counted s => exact h

theorem filterMap_call_asks (h : ∀ e ∈ events, e.Asks) :
    ∀ c ∈ events.filterMap Event.call?, c.IsQuery := by
  intro c hc
  obtain ⟨e, mem, he⟩ := List.mem_filterMap.mp hc
  cases e with
  | called d =>
    obtain rfl := Option.some.inj he
    exact h _ mem
  | noted n => cases he
  | counted s => cases he

theorem filterMap_sample_asks (h : ∀ e ∈ events, e.Asks) :
    events.filterMap Event.sample? = [] := by
  rw [List.filterMap_eq_nil_iff]
  intro e mem
  cases e with
  | called c => rfl
  | noted n => rfl
  | counted s => exact (h _ mem).elim

end

namespace Action
variable {α β : Type} (engine : Engine σ)

theorem bind_apply (a : Action σ α) (f : α → Action σ β) (w : World σ) :
    (a >>= f) w = f (a w).1 (a w).2 := rfl

theorem pure_apply (x : α) (w : World σ) : (pure x : Action σ α) w = (x, w) := rfl

theorem call_leads (c : Call) (w : World σ) :
    World.Leads engine w (call engine c w).2 [.called c] := ⟨rfl, rfl⟩

theorem note_leads (n : Note) (w : World σ) : World.Leads engine w (note n w).2 [.noted n] :=
  ⟨rfl, rfl⟩

theorem count_leads (s : Sample) (w : World σ) : World.Leads engine w (count s w).2 [.counted s] :=
  ⟨rfl, rfl⟩

def Asks (a : Action σ α) : Prop :=
  ∀ w, ∃ events, World.Leads engine w (a w).2 events ∧ ∀ e ∈ events, e.Asks

def Emits (kind : Event → Prop) (a : Action σ α) : Prop :=
  ∀ w, ∃ events, World.Leads engine w (a w).2 events ∧ ∀ e ∈ events, kind e

section
variable {engine : Engine σ} {kind : Event → Prop}

theorem Emits.mono {kind' : Event → Prop} {a : Action σ α} (h : Emits engine kind a)
    (within : ∀ e, kind e → kind' e) : Emits engine kind' a := by
  intro w
  obtain ⟨events, leads, all⟩ := h w
  exact ⟨events, leads, fun e mem => within e (all e mem)⟩

theorem Emits.pure (x : α) : Emits engine kind (Pure.pure x) := fun _ => ⟨[], .refl, by simp⟩

theorem Emits.bind {a : Action σ α} {f : α → Action σ β} (ha : Emits engine kind a)
    (hf : ∀ x, Emits engine kind (f x)) : Emits engine kind (a >>= f) := by
  intro w
  obtain ⟨events, leads, all⟩ := ha w
  obtain ⟨more, leads', all'⟩ := hf (a w).1 (a w).2
  refine ⟨events ++ more, leads.trans leads', ?_⟩
  intro e mem
  rcases List.mem_append.mp mem with mem | mem
  · exact all e mem
  · exact all' e mem

theorem Emits.call {c : Call} (h : kind (.called c)) : Emits engine kind (call engine c) :=
  fun w => ⟨[.called c], call_leads engine c w, by simpa using h⟩

theorem Emits.note {n : Note} (h : kind (.noted n)) : Emits engine kind (note n) :=
  fun w => ⟨[.noted n], note_leads engine n w, by simpa using h⟩

theorem Emits.known (fact : ParentView → Option α) : Emits engine kind (known fact) :=
  fun _ => ⟨[], .refl, by simp⟩

theorem Emits.learn (update : ParentView → ParentView) : Emits engine kind (learn update) :=
  fun _ => ⟨[], ⟨(List.append_nil _).symm, rfl⟩, by simp⟩

theorem Emits.asks {a : Action σ α} (h : Emits engine Event.Explores a) : Asks engine a :=
  h.mono fun _ => Event.Explores.asks

end

theorem call_passes (c : Call) (w : World σ) :
    World.Passes engine w (call engine c w).2 [.called c] :=
  { call_leads engine c w with parent := rfl }

theorem note_passes (n : Note) (w : World σ) : World.Passes engine w (note n w).2 [.noted n] :=
  { note_leads engine n w with parent := rfl }

def Makes (kind : Call → Prop) (a : Action σ α) : Prop :=
  ∀ w, ∃ events, World.Passes engine w (a w).2 events ∧
    ∀ c ∈ events.filterMap Event.call?, kind c

section
variable {engine : Engine σ} {kind : Call → Prop}

theorem Makes.mono {kind' : Call → Prop} {a : Action σ α} (h : Makes engine kind a)
    (within : ∀ c, kind c → kind' c) : Makes engine kind' a := by
  intro w
  obtain ⟨events, passes, made⟩ := h w
  exact ⟨events, passes, fun c mem => within c (made c mem)⟩

theorem Makes.pure (x : α) : Makes engine kind (Pure.pure x) := fun _ => ⟨[], .refl, by simp⟩

theorem Makes.bind {a : Action σ α} {f : α → Action σ β} (ha : Makes engine kind a)
    (hf : ∀ x, Makes engine kind (f x)) : Makes engine kind (a >>= f) := by
  intro w
  obtain ⟨events, passes, made⟩ := ha w
  obtain ⟨more, passes', made'⟩ := hf (a w).1 (a w).2
  refine ⟨events ++ more, passes.trans passes', ?_⟩
  intro c mem
  rw [List.filterMap_append] at mem
  rcases List.mem_append.mp mem with mem | mem
  · exact made c mem
  · exact made' c mem

theorem Makes.call {c : Call} (h : kind c) : Makes engine kind (call engine c) :=
  fun w => ⟨[.called c], call_passes engine c w, by simpa [Event.call?] using h⟩

theorem Makes.note (n : Note) : Makes engine kind (note n) :=
  fun w => ⟨[.noted n], note_passes engine n w, by simp [Event.call?]⟩

theorem Makes.count (s : Sample) : Makes engine kind (count s) :=
  fun w => ⟨[.counted s], { count_leads engine s w with parent := rfl }, by simp [Event.call?]⟩

end

end Action
end NodeFleet
