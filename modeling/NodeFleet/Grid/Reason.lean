import NodeFleet.Json.Record

set_option autoImplicit false
namespace NodeFleet

inductive Reason
  | timeout
  | browserTimeout
  /-- The node stopped answering while the session was still held. -/
  | orphan
  | clientGone
  | clientStoppedSession
  | creationFailed
deriving DecidableEq, Repr

namespace Reason

def all : List Reason :=
  [.timeout, .browserTimeout, .orphan, .clientGone, .clientStoppedSession, .creationFailed]

def name : Reason → String
  | .timeout => "TIMEOUT"
  | .browserTimeout => "BROWSER_TIMEOUT"
  | .orphan => "ORPHAN"
  | .clientGone => "CLIENT_GONE"
  | .clientStoppedSession => "CLIENT_STOPPED_SESSION"
  | .creationFailed => "CREATION_FAILED"

def display : Reason → String
  | .creationFailed => "CREATIONFAILED"
  | r => r.name

def ofName? (s : String) : Option Reason := all.find? (·.name = s)

def ofJson? : Json → Option Reason
  | .text s => ofName? s
  | .object [(s, .null)] => ofName? s
  | _ => none

def toJson (r : Reason) : Json := .text r.name

end Reason
end NodeFleet
