import NodeFleet.Container.Basic
import NodeFleet.Log.Note
import NodeFleet.Metrics.Sample

set_option autoImplicit false
namespace NodeFleet

inductive Call
  | listContainers (includeStopped : Bool)
  | inspect (id : String)
  | create (spec : Spec)
  | start (id : String)
  | stop (id : String) (grace : Span)
  | remove (id : String)
  | exec (id : String) (command : List String) (wait : Bool)
  | archive (id path : String)
  | listImages (name : String)
  | info
deriving DecidableEq

/-- Pieces of an archive; reading may fail part way. -/
abbrev Archive := List (Except Fault (List UInt8))

@[reducible] def Call.Answer : Call → Type
  | .listContainers _ => List Summary
  | .inspect _ => Detail
  | .create _ => String
  | .start _ | .stop .. | .remove _ => Unit
  | .exec .. => Option String
  | .archive .. => Archive
  | .listImages _ => List Image
  | .info => HostInfo

abbrev Engine (σ : Type) := (c : Call) → σ → Except Fault c.Answer × σ

inductive Event
  | called (c : Call)
  | noted (n : Note)
  | counted (s : Sample)
deriving DecidableEq

namespace Event

def call? : Event → Option Call
  | .called c => some c
  | _ => none

def note? : Event → Option Note
  | .noted n => some n
  | _ => none

def sample? : Event → Option Sample
  | .counted s => some s
  | _ => none

end Event
end NodeFleet
