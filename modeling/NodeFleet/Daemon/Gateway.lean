import NodeFleet.Container.Engine
import NodeFleet.Daemon.Frames
import NodeFleet.Daemon.Records
import NodeFleet.Daemon.Request
import NodeFleet.Daemon.Response

set_option autoImplicit false
namespace NodeFleet

inductive Delivery
  | answered (r : Response)
  /-- No daemon listens. -/
  | unreachable
  /-- The daemon did not answer in time. -/
  | overdue

abbrev Transport (τ : Type) := Request → τ → Delivery × τ

def Transport.ofList : Transport (List Response)
  | _, r :: rest => (.answered r, rest)
  | _, [] => (.unreachable, [])

structure Link (τ : Type) where
  wire : τ
  requests : List Request
  notes : List Note

def Link.begin {τ : Type} (wire : τ) : Link τ := ⟨wire, [], []⟩

namespace Gateway
variable {τ : Type}

abbrev Exchange (τ α : Type) := ExceptT Fault (StateM (Link τ)) α

def timedOut : Fault := .timedOut "request to Docker daemon timed out"

/-- Asks the daemon; a request that no daemon has taken leaves no trace. -/
def ask (transport : Transport τ) (request : Request) : Exchange τ Response := fun link =>
  match transport request link.wire with
  | (.answered r, wire) =>
    (r.accepted, { link with wire := wire, requests := link.requests ++ [request] })
  | (.unreachable, wire) => (.error Response.broken, { link with wire := wire })
  | (.overdue, wire) => (.error timedOut, { link with wire := wire })

def note (n : Note) : Exchange τ Unit := fun link =>
  (.ok (), { link with notes := link.notes ++ [n] })

def settle {α : Type} (outcome : Except Fault α) : Exchange τ α := fun link => (outcome, link)

variable (transport : Transport τ)

def askFor {α : Type} (request : Request) (decode : Json → Option α) : Exchange τ α := do
  let r ← ask transport request
  settle (r.decoded decode)

def tell (request : Request) : Exchange τ Unit := do
  let _ ← ask transport request
  pure ()

def create (spec : Spec) : Exchange τ String := do
  let (id, warnings) ← askFor transport (.create spec) Daemon.creation?
  warnings.forM fun w => note (.creationWarning w)
  pure id

/-- The output of a command that was waited for comes over the connection itself. When reading it
fails, what has come is given up. -/
def attached (r : Response) : Except Fault String :=
  if r.status ≠ 101 then .error Response.broken
  else if r.incomplete then .error ExecOutput.lost
  else ExecOutput.read r.body

def exec (id : String) (command : List String) (wait : Bool) : Exchange τ (Option String) := do
  let execId ← askFor transport (.execCreate id command) Daemon.execId?
  let r ← ask transport (.execStart execId wait)
  if wait then settle ((attached r).map some) else pure none

/-- The download begins at once; a refusal is its first and only piece. -/
def archive (id path : String) : Exchange τ Archive := fun link =>
  match ask transport (.archive id path) link with
  | (.ok r, link) => (.ok r.stream, link)
  | (.error f, link) => (.ok [.error f], link)

def answer : (c : Call) → Exchange τ c.Answer
  | .listContainers all => askFor transport (.listContainers all) (Json.asList? Daemon.summary?)
  | .inspect id => askFor transport (.inspect id) Daemon.detail?
  | .create spec => create transport spec
  | .start id => tell transport (.start id)
  | .stop id grace => tell transport (.stop id grace)
  | .remove id => tell transport (.remove id)
  | .exec id command wait => exec transport id command wait
  | .archive id path => archive transport id path
  | .listImages name => askFor transport (.listImages name) (Json.asList? Daemon.image?)
  | .info => askFor transport .info Daemon.hostInfo?

def engine : Engine (Link τ) := fun c link => answer transport c link

section
variable {transport} {request : Request} {link after : Link τ} {r : Response} {wire : τ}
  {α β : Type}

theorem bind_of_ok {a : Exchange τ α} {k : α → Exchange τ β} {x : α}
    (h : a link = (.ok x, after)) : (a >>= k) link = k x after := by
  change ExceptT.bindCont k (a link).1 (a link).2 = _
  rw [h]
  rfl

theorem bind_of_error {a : Exchange τ α} {k : α → Exchange τ β} {f : Fault}
    (h : a link = (.error f, after)) : (a >>= k) link = (.error f, after) := by
  change ExceptT.bindCont k (a link).1 (a link).2 = _
  rw [h]
  rfl

theorem ask_of_success (answered : transport request link.wire = (.answered r, wire))
    (success : r.isSuccess = true) :
    ask transport request link =
      (.ok r, { link with wire := wire, requests := link.requests ++ [request] }) := by
  rw [ask, answered, ← Response.accepted_of_isSuccess success]

theorem askFor_of_success (decode : Json → Option α)
    (answered : transport request link.wire = (.answered r, wire)) (success : r.isSuccess = true) :
    askFor transport request decode link =
      (r.decoded decode, { link with wire := wire, requests := link.requests ++ [request] }) := by
  rw [askFor, bind_of_ok (ask_of_success answered success)]
  rfl

theorem answered_of_ask (h : (ask transport request link).1 = .ok r) : ∃ wire,
    transport request link.wire = (.answered r, wire) ∧ r.isSuccess = true := by
  rw [ask] at h
  split at h
  · rename_i answer wire answered
    obtain ⟨rfl, success⟩ := Response.eq_of_accepted h
    exact ⟨wire, answered, success⟩
  · cases h
  · cases h

/-- The daemon does what is asked, and this is its answer. -/
def Replies (transport : Transport τ) (request : Request) (link : Link τ) (wire : τ) (v : Json) :
    Prop :=
  ∃ r, transport request link.wire = (.answered r, wire) ∧ r.isSuccess = true ∧ r.json? = some v

theorem askFor_of_replies {v : Json} (decode : Json → Option α)
    (h : Replies transport request link wire v) :
    askFor transport request decode link =
      ((decode v).elim (.error Response.broken) .ok,
        { link with wire := wire, requests := link.requests ++ [request] }) := by
  obtain ⟨r, answered, success, told⟩ := h
  rw [askFor_of_success decode answered success, Response.decoded, told, Option.bind_some]
  cases decode v <;> rfl

theorem replies_of_askFor (decode : Json → Option α) {a : α}
    (h : (askFor transport request decode link).1 = .ok a) :
    ∃ wire v, Replies transport request link wire v ∧ decode v = some a := by
  rw [askFor] at h
  cases asked : ask transport request link with
  | mk answer after =>
    cases answer with
    | error f =>
      rw [bind_of_error asked] at h
      cases h
    | ok r =>
      rw [bind_of_ok asked] at h
      obtain ⟨wire, answered, success⟩ := answered_of_ask (congrArg (·.1) asked)
      obtain ⟨v, told, read⟩ := Response.exists_of_decoded h
      exact ⟨wire, v, ⟨r, answered, success, told⟩, read⟩

end

end Gateway
end NodeFleet
