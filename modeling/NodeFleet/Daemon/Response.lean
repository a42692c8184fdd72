import NodeFleet.Daemon.Refusal

set_option autoImplicit false
namespace NodeFleet

structure Response where
  status : Nat
  body : Bytes
  /-- The connection failed before the end of the body. -/
  incomplete : Bool

namespace Response

/-- Failures inside the transport, whose wording is not part of the program. -/
def broken : Fault := .unavailable "transport"

def isSuccess (r : Response) : Bool :=
  (200 ≤ r.status && r.status < 300) || r.status = 304 || r.status = 101

def hasNoBody (r : Response) : Bool := r.status = 101 || r.status = 204 || r.status = 304

def body? (r : Response) : Option Bytes :=
  if r.hasNoBody then some [] else if r.incomplete then none else some r.body

def refused (status : Nat) (message : String) : Fault :=
  if status = 404 then .notFound message
  else .unavailable ("Docker responded with status code " ++ toString status ++ ": " ++ message)

def refusal (r : Response) : Fault :=
  match (r.body?.bind decodeStrict?).bind Refusal.message? with
  | some message => refused r.status message
  | none => broken

def accepted (r : Response) : Except Fault Response :=
  if r.isSuccess then .ok r else .error r.refusal

theorem accepted_of_isSuccess {r : Response} (h : r.isSuccess = true) : r.accepted = .ok r :=
  if_pos h

theorem eq_of_accepted {r a : Response} (h : r.accepted = .ok a) : r = a ∧ r.isSuccess = true := by
  rw [accepted] at h
  split at h
  · rename_i success
    exact ⟨Except.ok.inj h, success⟩
  · cases h

def json? (r : Response) : Option Json := (r.body?.bind decodeStrict?).bind Json.readChars?

def decoded {α : Type} (decode : Json → Option α) (r : Response) : Except Fault α :=
  match r.json?.bind decode with
  | some a => .ok a
  | none => .error broken

theorem decoded_of_some {α : Type} {decode : Json → Option α} {r : Response} {a : α}
    (h : r.json?.bind decode = some a) : r.decoded decode = .ok a := by
  rw [decoded, h]

theorem exists_of_decoded {α : Type} {decode : Json → Option α} {r : Response} {a : α}
    (h : r.decoded decode = .ok a) : ∃ v, r.json? = some v ∧ decode v = some a := by
  rw [decoded] at h
  cases read : r.json?.bind decode with
  | none =>
    rw [read] at h
    cases h
  | some b =>
    rw [read] at h
    obtain rfl := Except.ok.inj h
    exact Option.bind_eq_some_iff.mp read

/-- The bytes of the body as a stream; a body that breaks off ends in a fault. -/
def stream (r : Response) : List (Except Fault Bytes) :=
  if r.hasNoBody then []
  else .ok r.body :: if r.incomplete then [.error broken] else []

end Response
end NodeFleet
