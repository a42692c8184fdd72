import NodeFleet.Reclaimer.Basic
import NodeFleet.Reclaimer.Claim
/-!
The reclaimer at work: the caller and the poll tasks share one thread. Each runs until it has to
wait; then what is ready runs in the order in which it became ready, and the clock moves only when
nothing is. A machine holds what is left to do as frames, the next one first.
-/

set_option autoImplicit false
namespace NodeFleet
namespace Reclaimer

inductive Frame
  | perform (operation : Operation)
  | sleep (wake : Nat)
  /-- Stopping waits for a poll task to end. -/
  | awaitEnd (task : Nat)
  | poll
  /-- Slots that a pass still has to release, the phase it found, and how many it claimed. -/
  | releases (pass : Nat) (left : List SlotSession) (previous : Phase) (count : Nat)
  | hookEnd
  | capture (pass : Nat) (sessionId : String)

structure Fiber where
  frames : List Frame
  reply : Reply

def Fiber.idle : Fiber := ⟨[], .done⟩

inductive Life
  /-- Has not run yet. -/
  | fresh
  /-- Waits for its next tick. -/
  | waiting
  | busy
  | ended
  | failed
deriving DecidableEq, Repr

namespace Life

def isLive : Life → Bool
  | .ended | .failed => false
  | _ => true

end Life

structure PollTask where
  life : Life
  cancelled : Bool
  /-- When the next tick is due, in nanoseconds. -/
  due : Nat
  fiber : Fiber

def PollTask.new : PollTask := ⟨.fresh, false, 0, .idle⟩

def nanosPerMilli : Nat := 1000000

def wakeTime (nanos : Nat) : Nat := (nanos + (nanosPerMilli - 1)) / nanosPerMilli

def Fiber.wake? (f : Fiber) : Option Nat :=
  match f.frames with
  | .sleep wake :: _ => some wake
  | _ => none

def PollTask.wake? (t : PollTask) : Option Nat :=
  match t.life with
  | .waiting => some (wakeTime t.due)
  | .busy => t.fiber.wake?
  | _ => none

inductive Job
  | task (id : Nat)
  | capture (number : Nat) (sessionId : String) (completed : Bool)
deriving DecidableEq, Repr

structure Machine where
  slots : List SlotSession
  hooks : List Hook
  phase : Phase
  terminal : SessionIds
  tasks : List PollTask
  /-- The poll task that stopping would end. -/
  current : Option Nat
  /-- Held while stopping waits; starting and stopping need it. -/
  locked : Bool
  /-- Milliseconds since the beginning. -/
  clock : Nat
  caller : Fiber
  /-- Whose code runs, if any does. -/
  running : Option Owner
  /-- What is ready, in order. -/
  queue : List Job
  passes : Nat
  captures : Nat
  history : List Occurrence

namespace Machine

def new (slots : List SlotSession) (hooks : List Hook) : Machine where
  slots := slots
  hooks := hooks
  phase := .stopped
  terminal := []
  tasks := []
  current := none
  locked := false
  clock := 0
  caller := .idle
  running := none
  queue := []
  passes := 0
  captures := 0
  history := []

def clockNanos (m : Machine) : Nat := m.clock * nanosPerMilli

def record (m : Machine) (o : Occurrence) : Machine := { m with history := m.history ++ [o] }

def note (m : Machine) (n : Note) : Machine := m.record (.noted n)

def enqueue (m : Machine) (j : Job) : Machine := { m with queue := m.queue ++ [j] }

def pause (m : Machine) : Machine := { m with running := none }

def updateTask (m : Machine) (id : Nat) (f : PollTask → PollTask) : Machine :=
  { m with tasks := m.tasks.modify id f }

def fiber (m : Machine) : Owner → Fiber
  | .caller => m.caller
  | .task id => ((m.tasks[id]?).map (·.fiber)).getD .idle

def setFiber (m : Machine) (o : Owner) (f : Fiber) : Machine :=
  match o with
  | .caller => { m with caller := f }
  | .task id => m.updateTask id fun t => { t with fiber := f }

def goOn (m : Machine) (o : Owner) (frames : List Frame) : Machine :=
  m.setFiber o { m.fiber o with frames := frames }

def finish (m : Machine) (o : Owner) (reply : Reply) (rest : List Frame) : Machine :=
  m.setFiber o ⟨rest, reply⟩

def isLive (m : Machine) (id : Nat) : Bool :=
  ((m.tasks[id]?).map (·.life.isLive)).getD false

def hasFailed (m : Machine) (id : Nat) : Bool :=
  ((m.tasks[id]?).map fun t => t.life == .failed).getD false

/-- Whether a frame has to wait for something else to happen. -/
def waits (m : Machine) : Frame → Bool
  | .sleep wake => m.clock < wake
  | .awaitEnd id => m.isLive id
  | .perform .start => m.locked
  | .perform .stop => m.locked
  | _ => false

end Machine
end Reclaimer
end NodeFleet
