import NodeFleet.Container.Engine
import NodeFleet.Parent.Mounts
import NodeFleet.Parent.Network
import NodeFleet.Parent.Proxy

set_option autoImplicit false
namespace NodeFleet

/-- What has been found out about the parent. A refusal of its mounts is kept like a result. -/
structure ParentView where
  network : Option NodeNetwork
  mounts : Option (Except ConfigurationError (List MountBinding))
  proxy : Option ProxyVariables

def ParentView.unknown : ParentView := ⟨none, none, none⟩

structure World (σ : Type) where
  engine : σ
  parent : ParentView
  trace : List Event

namespace World
variable {σ : Type}

def begin (engine : σ) : World σ := ⟨engine, .unknown, []⟩

def calls (w : World σ) : List Call := w.trace.filterMap Event.call?
def notes (w : World σ) : List Note := w.trace.filterMap Event.note?
def samples (w : World σ) : List Sample := w.trace.filterMap Event.sample?

end World

abbrev Action (σ : Type) := StateM (World σ)

namespace Action
variable {σ : Type}

def call (engine : Engine σ) (c : Call) : Action σ (Except Fault c.Answer) := fun w =>
  ((engine c w.engine).1, { w with engine := (engine c w.engine).2, trace := w.trace ++ [.called c] })

def note (n : Note) : Action σ Unit := fun w => ((), { w with trace := w.trace ++ [.noted n] })

def count (s : Sample) : Action σ Unit := fun w => ((), { w with trace := w.trace ++ [.counted s] })

def known {α : Type} (fact : ParentView → Option α) : Action σ (Option α) := fun w =>
  (fact w.parent, w)

def learn (update : ParentView → ParentView) : Action σ Unit := fun w =>
  ((), { w with parent := update w.parent })

section
variable (engine : Engine σ) (c : Call) (n : Note) (s : Sample) (w : World σ)

@[simp] theorem call_answer : (call engine c w).1 = (engine c w.engine).1 := rfl
@[simp] theorem call_trace : (call engine c w).2.trace = w.trace ++ [.called c] := rfl
@[simp] theorem call_parent : (call engine c w).2.parent = w.parent := rfl
@[simp] theorem note_trace : (note n w).2.trace = w.trace ++ [.noted n] := rfl
@[simp] theorem note_parent : (note n w).2.parent = w.parent := rfl
@[simp] theorem note_engine : (note n w).2.engine = w.engine := rfl
@[simp] theorem count_trace : (count s w).2.trace = w.trace ++ [.counted s] := rfl
@[simp] theorem count_parent : (count s w).2.parent = w.parent := rfl
@[simp] theorem count_engine : (count s w).2.engine = w.engine := rfl

end

end Action
end NodeFleet
