import NodeFleet.Grid.Reason
import NodeFleet.Grid.Slot
import NodeFleet.Log.Note
import NodeFleet.Metrics.Sample
import NodeFleet.Settings.Basic
/-!
Ending idle sessions of one proxy of the grid: what can be asked of the reclaimer, what happens
around it, and what shows of it. While the proxy releases a slot anything may happen to the
reclaimer; such happenings are given as hooks, one operation each.
-/

set_option autoImplicit false
namespace NodeFleet
namespace Reclaimer

inductive Phase
  | polling
  | reclaiming
  | stopped
deriving DecidableEq, Repr

def Phase.label : Phase → String
  | .polling => "Polling"
  | .reclaiming => "Reclaiming"
  | .stopped => "Stopped"

inductive CaptureOutcome
  | succeeds
  | fails
  | neverEnds
deriving DecidableEq, Repr

inductive Operation
  /-- The proxy's occupied slots change. -/
  | setSlots (slots : List SlotSession)
  | reclaim
  | complete (slot : SlotSession)
  | start
  | stop
  | phase
  /-- Milliseconds pass. -/
  | advance (ms : Nat)

/-- An operation that runs once, inside the next release of a slot. -/
structure Hook where
  slotId : String
  operation : Operation

inductive Reply
  | done
  | released (count : Nat)
  | phase (p : Phase)
deriving DecidableEq, Repr

structure Setup where
  proxy : String
  threshold : Span
  interval : Span
  /-- A released slot is no longer occupied. -/
  removeOnRelease : Bool
  /-- The outcome of each capture, counted from 0. -/
  capture : Nat → CaptureOutcome
  /-- The wall clock, which tells how long sessions have lasted. -/
  now : Timestamp

/-- Whose code runs: the caller's, or that of the poll task with this number. -/
inductive Owner
  | caller
  | task (id : Nat)
deriving DecidableEq, Repr

inductive Occurrence
  /-- A pass read the occupied slots at a time in milliseconds, and claimed some of them. -/
  | polled (pass : Nat) (owner : Owner) (time : Nat) (listed claimed : List SlotSession)
  | noted (n : Note)
  | counted (s : Sample)
  /-- A pass released a slot, in a phase, while these slots were occupied. -/
  | released (pass : Nat) (slot : SlotSession) (reason : Reason) (phase : Phase)
    (occupied : List SlotSession)
  | hooked (reply : Reply)
  | captured (pass : Option Nat) (sessionId : String) (completed : Bool)
  /-- A completion was the first to end its session. -/
  | completed (sessionId : String)
  | passEnded (pass count : Nat)

namespace Setup

def intervalNanos (s : Setup) : Nat := s.interval.toNanos

def ofSettings (proxy : String) (removeOnRelease : Bool) (capture : Nat → CaptureOutcome)
    (now : Timestamp) (r : ReclaimerSettings) : Setup :=
  ⟨proxy, r.idleThreshold, r.pollInterval, removeOnRelease, capture, now⟩

end Setup
end Reclaimer
end NodeFleet
