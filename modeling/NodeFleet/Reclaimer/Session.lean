import NodeFleet.Reclaimer.Step

set_option autoImplicit false
namespace NodeFleet
namespace Reclaimer
namespace Machine

def issue (m : Machine) (operation : Operation) : Machine :=
  { m with caller := ⟨[.perform operation], .done⟩, running := some .caller }

/-- Steps until there is none left, at most `limit`. -/
def run (s : Setup) : Nat → Machine → Machine
  | 0, m => m
  | limit + 1, m =>
    match step s m with
    | none => m
    | some m' => run s limit m'

/-! ### How many steps can follow

What is left to do costs steps: frames, hooks, ticks until the time that can pass is over, and jobs.
-/

def duration : Operation → Nat
  | .advance ms => ms
  | _ => 0

def slotCount : Operation → Nat
  | .setSlots slots => slots.length
  | _ => 0

def sumOf (numbers : List Nat) : Nat := numbers.foldr (· + ·) 0

def total (weight : Frame → Nat) (frames : List Frame) : Nat := sumOf (frames.map weight)

/-- A sum over all that is left to do; a hook counts as the frames that it comes to. -/
def load (weight : Frame → Nat) (m : Machine) : Nat :=
  total weight m.caller.frames + sumOf (m.tasks.map fun t => total weight t.fiber.frames)
    + sumOf (m.hooks.map fun h => total weight [.perform h.operation, .hookEnd])

end Machine

namespace Frame

def slotCount : Frame → Nat
  | .perform operation => Machine.slotCount operation
  | _ => 0

def timeLeft (clock : Nat) : Frame → Nat
  | .perform operation => Machine.duration operation
  | .sleep wake => wake - clock
  | _ => 0

end Frame

/-- What cannot be passed before all is done: the longest list of slots, and the last millisecond. -/
structure Horizon where
  slots : Nat
  ending : Nat

namespace Horizon

def jobCost : Nat := 4

def passCost (h : Horizon) : Nat := 2 + (jobCost + 2) * h.slots

/-- The ticks of a poll task from one that is due on, and its wakings. -/
def pollingCost (h : Horizon) (clock due : Nat) : Nat :=
  (h.passCost + 1) * (h.ending * nanosPerMilli + 1 - due) + jobCost * (h.ending - clock)

def frameCost (h : Horizon) : Frame → Nat
  | .perform .reclaim => h.passCost + 1
  | .perform (.complete _) => jobCost + 1
  | .perform .start => h.pollingCost 0 0 + jobCost + 1
  | .perform .stop => jobCost + 2
  | .perform (.advance _) => 2
  | .poll => h.passCost
  | .releases _ left _ _ => (jobCost + 2) * left.length + 1
  | .capture .. => jobCost + 1
  | _ => 1

def taskCost (h : Horizon) (clock : Nat) (t : PollTask) : Nat :=
  match t.life with
  | .fresh => h.pollingCost clock 0
  | .waiting | .busy => h.pollingCost clock t.due
  | .ended | .failed => 0

end Horizon

namespace Machine

def horizon (m : Machine) : Horizon :=
  ⟨m.slots.length + m.load Frame.slotCount, m.clock + m.load (Frame.timeLeft m.clock)⟩

def turnCost (m : Machine) : Nat :=
  match m.running with
  | some .caller => 1
  | some (.task _) => 3
  | none => if m.caller.frames.head?.all m.waits then 0 else 2

def cost (h : Horizon) (m : Machine) : Nat :=
  m.turnCost + m.load h.frameCost + sumOf (m.tasks.map (h.taskCost m.clock))
    + Horizon.jobCost * m.queue.length + 3 * (h.ending - m.clock)

def stepLimit (m : Machine) : Nat := m.cost m.horizon

def operate (s : Setup) (m : Machine) (operation : Operation) : Machine :=
  run s (m.issue operation).stepLimit (m.issue operation)

def isSettled (m : Machine) : Bool := m.caller.frames.isEmpty

end Machine

structure Report where
  reply : Option Reply
  phase : Phase
  occurrences : List Occurrence

namespace Machine

def report (before after : Machine) : Report where
  reply := if after.isSettled then some after.caller.reply else none
  phase := after.phase
  occurrences := after.history.drop before.history.length

def session (s : Setup) (m : Machine) : List Operation → List Report
  | [] => []
  | operation :: r =>
    let after := operate s m operation
    report m after :: session s after r

end Machine
end Reclaimer
end NodeFleet
