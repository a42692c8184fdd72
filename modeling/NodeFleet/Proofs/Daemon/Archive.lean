import NodeFleet.Daemon.Gateway
import NodeFleet.Node.Upkeep
import NodeFleet.Proofs.Text.Encoding
import NodeFleet.Proofs.World

set_option autoImplicit false
namespace NodeFleet

namespace Response

def message? (r : Response) : Option String := (r.body?.bind decodeStrict?).bind Refusal.message?

theorem refusal_of_message {r : Response} {message : String} (told : r.message? = some message) :
    r.refusal = refused r.status message := by
  rw [message?] at told
  rw [refusal, told]

theorem refusal_of_unreadable {r : Response} (none : r.message? = none) : r.refusal = broken := by
  rw [message?] at none
  rw [refusal, none]

theorem refusal_eq_notFound_iff {r : Response} {message : String} :
    r.refusal = .notFound message ↔ r.status = 404 ∧ r.message? = some message := by
  cases read : r.message? with
  | none =>
    rw [refusal_of_unreadable read]
    exact ⟨nofun, nofun⟩
  | some told =>
    rw [refusal_of_message read, refused]
    by_cases missing : r.status = 404
    · rw [if_pos missing, Fault.notFound.injEq, Option.some.injEq, and_iff_right missing]
    · rw [if_neg missing]
      exact ⟨nofun, fun h => absurd h.1 missing⟩

theorem message?_of_text {r : Response} {s message : String}
    (body : r.body? = some (encodeText s)) (told : Refusal.message? s.toList = some message) :
    r.message? = some message := by
  rw [message?, body, Option.bind_some, Utf8.decodeStrict?_encodeText]
  exact told

theorem not_isSuccess_of_notFound {r : Response} (h : r.status = 404) : r.isSuccess = false := by
  rw [isSuccess, h]
  rfl

theorem head?_stream (r : Response) (f : Fault) : r.stream.head? ≠ some (.error f) := by
  rw [stream]
  split <;> nofun

end Response

/-- No success comes of a request but this fault. -/
inductive Refuses {τ : Type} (transport : Transport τ) (request : Request) (link : Link τ) :
    Fault → Prop
  | refused {r : Response} {wire : τ} (answered : transport request link.wire = (.answered r, wire))
      (unsuccessful : r.isSuccess = false) : Refuses transport request link r.refusal
  | unreachable {wire : τ} (lost : transport request link.wire = (.unreachable, wire)) :
      Refuses transport request link Response.broken
  | overdue {wire : τ} (late : transport request link.wire = (.overdue, wire)) :
      Refuses transport request link Gateway.timedOut

def Call.opening : Call → Request
  | .listContainers all => .listContainers all
  | .inspect id => .inspect id
  | .create spec => .create spec
  | .start id => .start id
  | .stop id grace => .stop id grace
  | .remove id => .remove id
  | .exec id command _ => .execCreate id command
  | .archive id path => .archive id path
  | .listImages name => .listImages name
  | .info => .info

/-- The one call that can be answered before its request is. -/
def Call.IsDownload : Call → Prop
  | .archive .. => True
  | _ => False

namespace Gateway
variable {τ α : Type} {transport : Transport τ} {request : Request} {link : Link τ} {f : Fault}

theorem ask_eq_error_iff :
    (ask transport request link).1 = .error f ↔ Refuses transport request link f := by
  rw [ask]
  constructor
  · intro h
    split at h
    · rename_i r wire answered
      rw [Response.accepted] at h
      split at h
      · cases h
      · rename_i unsuccessful
        obtain rfl := Except.error.inj h
        exact .refused answered (Bool.not_eq_true _ ▸ unsuccessful)
    · rename_i wire lost
      obtain rfl := Except.error.inj h
      exact .unreachable lost
    · rename_i wire late
      obtain rfl := Except.error.inj h
      exact .overdue late
  · rintro (⟨answered, unsuccessful⟩ | lost | late)
    · rw [answered]
      exact if_neg (Bool.not_eq_true _ ▸ unsuccessful)
    · rw [lost]
    · rw [late]

theorem bind_fails {β : Type} {a : Exchange τ α} {k : α → Exchange τ β}
    (h : (a link).1 = .error f) : ((a >>= k) link).1 = .error f := by
  have failed : a link = (.error f, (a link).2) := Prod.ext h rfl
  rw [bind_of_error failed]

theorem error_of_refuses {c : Call} (kind : ¬ c.IsDownload)
    (h : Refuses transport c.opening link f) : (engine transport c link).1 = .error f := by
  have failed := ask_eq_error_iff.mpr h
  cases c with
  | listContainers all => exact bind_fails failed
  | inspect id => exact bind_fails failed
  | create spec => exact bind_fails (bind_fails failed)
  | start id => exact bind_fails failed
  | stop id grace => exact bind_fails failed
  | remove id => exact bind_fails failed
  | exec id command wait => exact bind_fails (bind_fails failed)
  | archive id path => exact absurd trivial kind
  | listImages name => exact bind_fails failed
  | info => exact bind_fails failed

/-- What is found in a download: what the body holds, or else the refusal alone. -/
def pieces : Except Fault Response → Archive
  | .ok r => r.stream
  | .error f => [.error f]

theorem archive_answer (transport : Transport τ) (id path : String) (link : Link τ) :
    (engine transport (.archive id path) link).1 =
      .ok (pieces (ask transport (.archive id path) link).1) := by
  change (archive transport id path link).1 = _
  rw [archive]
  split <;> (rename_i asked; rw [asked]; rfl)

theorem head?_pieces {outcome : Except Fault Response} :
    (pieces outcome).head? = some (.error f) ↔ outcome = .error f := by
  cases outcome with
  | ok r => exact iff_of_false (Response.head?_stream r f) nofun
  | error g =>
    rw [pieces, List.head?_cons, Option.some.injEq, Except.error.injEq, Except.error.injEq]

theorem refuses_notFound_iff {message : String} :
    Refuses transport request link (.notFound message) ↔ ∃ r wire,
      transport request link.wire = (.answered r, wire) ∧ r.status = 404 ∧
        r.message? = some message := by
  constructor
  · intro h
    generalize named : Fault.notFound message = f at h
    cases h with
    | refused answered _ => exact ⟨_, _, answered, Response.refusal_eq_notFound_iff.mp named.symm⟩
    | unreachable => cases named
    | overdue => cases named
  · rintro ⟨r, wire, answered, missing, told⟩
    rw [← Response.refusal_eq_notFound_iff.mpr ⟨missing, told⟩]
    exact .refused answered (Response.not_isSuccess_of_notFound missing)

end Gateway

/-- A download is answered whether or not the daemon refuses it, and nothing is noted; a refusal is
the only piece of the archive, and every other call would fail with it. What a body can break off
with apart, no fault is the first piece of an archive but such a refusal. -/
theorem refused_download_is_its_only_piece {τ : Type} (transport : Transport τ) :
    let engine := Gateway.engine transport
    (∀ id path (w : World (Link τ)), ∃ pieces,
      let copy := Action.copyFiles engine id path w
      (engine (.archive id path) w.engine).1 = .ok pieces ∧ copy.1 = some pieces ∧
        copy.2.notes = w.notes ∧
        (∀ f, Refuses transport (.archive id path) w.engine f → pieces = [.error f]) ∧
        (∀ f, f ≠ Response.broken →
          (pieces.head? = some (.error f) ↔ Refuses transport (.archive id path) w.engine f)) ∧
        (∀ message, pieces.head? = some (.error (.notFound message)) ↔
          ∃ r wire, transport (.archive id path) w.engine.wire = (.answered r, wire) ∧
            r.status = 404 ∧ r.message? = some message) ∧
        ∀ r wire, transport (.archive id path) w.engine.wire = (.answered r, wire) →
          r.isSuccess = true → pieces = r.stream) ∧
      ∀ (c : Call) (link : Link τ) (f : Fault), ¬ c.IsDownload →
        Refuses transport c.opening link f → (engine c link).1 = .error f := by
  intro engine
  refine ⟨fun id path w => ?_, fun c link f kind => Gateway.error_of_refuses kind⟩
  have answer := Gateway.archive_answer transport id path w.engine
  have copied : Action.copyFiles engine id path w =
      (some (Gateway.pieces (Gateway.ask transport (.archive id path) w.engine).1),
        (Action.call engine (.archive id path) w).2) := by
    rw [Action.copyFiles, Action.bind_apply, Action.call_answer, answer]
    rfl
  have noted : (Action.call engine (.archive id path) w).2.notes = w.notes := by
    rw [World.notes, Action.call_trace, List.filterMap_append]
    exact List.append_nil _
  refine ⟨_, answer, congrArg (·.1) copied, ?_, ?_, ?_, ?_, ?_⟩
  · rw [copied]
    exact noted
  · intro f refuses
    rw [Gateway.ask_eq_error_iff.mpr refuses]
    rfl
  · intro f _
    exact Gateway.head?_pieces.trans Gateway.ask_eq_error_iff
  · intro message
    rw [Gateway.head?_pieces, Gateway.ask_eq_error_iff, Gateway.refuses_notFound_iff]
  · intro r wire answered success
    rw [Gateway.ask_of_success answered success]
    rfl

def refusalText : String := "\x7b\"message\":\"Could not find the file\"\x7d"

theorem refused_download_is_its_only_piece_missing :
    let start : World (Link (List Response)) :=
      World.begin (Link.begin [⟨404, encodeText refusalText, false⟩])
    let engine := Gateway.engine Transport.ofList
    (Action.copyFiles engine "abc" "/home/seluser/videos" start).1 =
        some [.error (.notFound "Could not find the file")] ∧
      (Action.copyFiles engine "abc" "/home/seluser/videos" start).2.notes = [] ∧
      (engine (.start "abc") start.engine).1 = .error (.notFound "Could not find the file") := by
  intro start engine
  have read : Refusal.message? refusalText.toList = some "Could not find the file" := by
    decide +kernel
  have told : Response.message? ⟨404, encodeText refusalText, false⟩ =
      some "Could not find the file" := Response.message?_of_text rfl read
  have refused (request : Request) : Refuses Transport.ofList request start.engine
      (.notFound "Could not find the file") :=
    Gateway.refuses_notFound_iff.mpr ⟨_, [], rfl, rfl, told⟩
  obtain ⟨download, others⟩ := refused_download_is_its_only_piece Transport.ofList
  obtain ⟨pieces, -, copied, noted, only, -⟩ := download "abc" "/home/seluser/videos" start
  refine ⟨?_, noted, others (.start "abc") start.engine _ id (refused _)⟩
  rw [copied, only _ (refused _)]

end NodeFleet
