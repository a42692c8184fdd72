import NodeFleet.Time.Timestamp

set_option autoImplicit false
namespace NodeFleet

structure SlotSession where
  slotId : String
  sessionId : String
  /-- Time since the session last saw a command. -/
  inactivity : Span
  lastStart : Timestamp
  capabilities : Table Json

namespace SlotSession

/-- How long the session has lasted; one that starts later has not lasted at all. -/
def elapsed (s : SlotSession) (now : Timestamp) : Span := Timestamp.elapsed s.lastStart now

def isIdle (s : SlotSession) (threshold : Span) : Bool := threshold.le s.inactivity

def fieldNames : List String :=
  ["slot_id", "session_id", "inactivity", "last_session_start", "requested_capabilities"]

def ofJson? (v : Json) : Option SlotSession :=
  match v.record? fieldNames with
  | some [some slot, some session, some inactivity, some start, some capabilities] => do
    pure ⟨← slot.asText?, ← session.asText?, ← Span.ofJson? inactivity, ← Timestamp.ofJson? start,
      ← Json.asTable? some capabilities⟩
  | _ => none

def toJson (s : SlotSession) : Json :=
  .object [("slot_id", .text s.slotId), ("session_id", .text s.sessionId),
    ("inactivity", s.inactivity.toJson), ("last_session_start", s.lastStart.toJson),
    ("requested_capabilities", .object s.capabilities)]

end SlotSession
end NodeFleet
