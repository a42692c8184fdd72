import NodeFleet.Daemon.Gateway
import NodeFleet.Proofs.Text.Pieces

set_option autoImplicit false
namespace NodeFleet
namespace ExecOutput

def lengthBytes (n : Nat) : Bytes :=
  [UInt8.ofNat (n / 0x1000000), UInt8.ofNat (n / 0x10000), UInt8.ofNat (n / 0x100), UInt8.ofNat n]

structure Frame where
  kind : UInt8
  padding : UInt8 × UInt8 × UInt8
  payload : Bytes
  kind_le : kind ≤ 2
  length_lt : payload.length < 0x100000000

namespace Frame

def behindKind (f : Frame) : Bytes :=
  f.padding.1 :: f.padding.2.1 :: f.padding.2.2 :: (lengthBytes f.payload.length ++ f.payload)

def bytes (f : Frame) : Bytes := f.kind :: f.behindKind

end Frame

theorem lengthOf_lengthBytes {n : Nat} (h : n < 0x100000000) : lengthOf (lengthBytes n) = n := by
  simp only [lengthOf, lengthBytes, UInt8.toNat_ofNat']
  omega

theorem lengthBytes_lengthOf (a b c d : UInt8) :
    lengthOf [a, b, c, d] < 0x100000000 ∧ lengthBytes (lengthOf [a, b, c, d]) = [a, b, c, d] := by
  have ha := a.toNat_lt
  have hb := b.toNat_lt
  have hc := c.toNat_lt
  have hd := d.toNat_lt
  have byte {n : Nat} {x : UInt8} (same : n % 0x100 = x.toNat) : UInt8.ofNat n = x := by
    rw [← UInt8.toNat_inj, UInt8.toNat_ofNat', same]
  simp only [lengthOf, lengthBytes, List.cons.injEq, and_true]
  refine ⟨by omega, byte ?_, byte ?_, byte ?_, byte ?_⟩ <;> omega

theorem length_behindKind (f : Frame) : f.behindKind.length = 7 + f.payload.length := by
  simp [Frame.behindKind, lengthBytes]
  omega

theorem drop_behindKind (f : Frame) : f.behindKind.drop 7 = f.payload := rfl

/-- The length that the three bytes and four more behind a kind announce. -/
def announced (rest : Bytes) : Nat := lengthOf ((rest.drop 3).take 4)

theorem announced_of_take {rest : Bytes} (f : Frame) (same : rest.take 7 = f.behindKind.take 7) :
    announced rest = f.payload.length := by
  have shown : (rest.drop 3).take 4 = lengthBytes f.payload.length := by
    rw [List.take_drop, same]
    rfl
  rw [announced, shown, lengthOf_lengthBytes f.length_lt]

theorem payloads?_cons (kind : UInt8) (rest : Bytes) : payloads? (kind :: rest) =
    if 2 < kind then some [kind :: rest]
    else if rest.length < 7 + announced rest then none
    else (payloads? (rest.drop (7 + announced rest))).map
      ((rest.drop 7).take (announced rest) :: ·) := by
  rw [payloads?]
  rfl

theorem payloads?_frame (f : Frame) (rest : Bytes) :
    payloads? (f.bytes ++ rest) = (payloads? rest).map (f.payload :: ·) := by
  have length := length_behindKind f
  have told : announced (f.behindKind ++ rest) = f.payload.length :=
    announced_of_take f (List.take_append_of_le_length (by omega))
  have enough : ¬ (f.behindKind ++ rest).length < 7 + f.payload.length := by
    rw [List.length_append]
    omega
  have behind : (f.behindKind ++ rest).drop 7 = f.payload ++ rest := by
    rw [List.drop_append_of_le_length (by omega), drop_behindKind]
  rw [Frame.bytes, List.cons_append, payloads?_cons, if_neg (UInt8.not_lt.mpr f.kind_le), told,
    if_neg enough, behind, List.take_left, ← List.drop_drop, behind, List.drop_left]

theorem payloads?_frames (frames : List Frame) (rest : Bytes) :
    payloads? (frames.flatMap Frame.bytes ++ rest) =
      (payloads? rest).map (frames.map Frame.payload ++ ·) := by
  induction frames with
  | nil => simp
  | cons f frames ih =>
    rw [List.flatMap_cons, List.append_assoc, payloads?_frame, ih, Option.map_map]
    rfl

inductive Carries : Bytes → List Bytes → Prop
  | nothing : Carries [] []
  | bare (kind : UInt8) (rest : Bytes) (unknown : 2 < kind) : Carries (kind :: rest) [kind :: rest]
  | frame (f : Frame) (rest : Bytes) (payloads : List Bytes) (further : Carries rest payloads) :
      Carries (f.bytes ++ rest) (f.payload :: payloads)

/-- After some frames one more has begun and does not come to its end. -/
def BreaksOff (bytes : Bytes) : Prop :=
  ∃ (frames : List Frame) (f : Frame) (begun missing : Bytes),
    bytes = frames.flatMap Frame.bytes ++ begun ∧ begun ++ missing = f.bytes ∧
      begun ≠ [] ∧ missing ≠ []

theorem exists_frame {kind : UInt8} (kind_le : kind ≤ 2) {more : Bytes} (seven : more.length = 7)
    (payload : Bytes) (told : payload.length = lengthOf (more.drop 3)) :
    ∃ f : Frame, f.bytes = kind :: (more ++ payload) ∧ f.payload = payload := by
  obtain ⟨x, y, z, a, b, c, d, rfl⟩ : ∃ x y z a b c d, more = [x, y, z, a, b, c, d] := by
    rcases more with _ | ⟨x, _ | ⟨y, _ | ⟨z, _ | ⟨a, _ | ⟨b, _ | ⟨c, _ | ⟨d, _ | ⟨e, t⟩⟩⟩⟩⟩⟩⟩⟩ <;>
      simp at seven ⊢
  obtain ⟨small, written⟩ := lengthBytes_lengthOf a b c d
  change payload.length = lengthOf [a, b, c, d] at told
  rw [← told] at small written
  refine ⟨⟨kind, (x, y, z), payload, kind_le, small⟩, ?_, rfl⟩
  simp [Frame.bytes, Frame.behindKind, written]

theorem payloads?_of_begun {f : Frame} {begun missing : Bytes} (whole : begun ++ missing = f.bytes)
    (some : begun ≠ []) (more : missing ≠ []) : payloads? begun = none := by
  obtain ⟨kind, rest, rfl⟩ := List.exists_cons_of_ne_nil some
  obtain ⟨rfl, behind⟩ : kind = f.kind ∧ rest ++ missing = f.behindKind := List.cons.inj whole
  have lengths := congrArg List.length behind
  rw [List.length_append, length_behindKind] at lengths
  have lacking : 0 < missing.length := List.length_pos_iff.mpr more
  have short : rest.length < 7 + announced rest := by
    by_cases header : rest.length < 7
    · omega
    · have same : rest.take 7 = f.behindKind.take 7 := by
        rw [← behind]
        exact (List.take_append_of_le_length (Nat.le_of_not_lt header)).symm
      have told := announced_of_take f same
      omega
  rw [payloads?_cons, if_neg (UInt8.not_lt.mpr f.kind_le), if_pos short]

theorem payloads?_of_carries {bytes : Bytes} {payloads : List Bytes} (h : Carries bytes payloads) :
    payloads? bytes = some payloads := by
  induction h with
  | nothing => rw [payloads?]
  | bare kind rest unknown => rw [payloads?_cons, if_pos unknown]
  | frame f rest payloads further ih => rw [payloads?_frame, ih]; rfl

theorem payloads?_of_breaksOff {bytes : Bytes} (h : BreaksOff bytes) : payloads? bytes = none := by
  obtain ⟨frames, f, begun, missing, rfl, whole, some, more⟩ := h
  rw [payloads?_frames, payloads?_of_begun whole some more]
  rfl

theorem drop_header (rest : Bytes) : lengthOf ((rest.take 7).drop 3) = announced rest := by
  rw [announced, List.drop_take]

theorem exists_missing {kind : UInt8} (kind_le : kind ≤ 2) {rest : Bytes}
    (short : rest.length < 7 + announced rest) :
    ∃ (f : Frame) (missing : Bytes), kind :: rest ++ missing = f.bytes ∧ missing ≠ [] := by
  by_cases header : rest.length < 7
  · let zeros : Bytes := List.replicate (7 - rest.length) 0
    have lacking : 0 < zeros.length := by
      rw [List.length_replicate]
      omega
    have seven : (rest ++ zeros).length = 7 := by
      rw [List.length_append, List.length_replicate]
      omega
    -- the completed header may announce a payload, which is then missing too
    let payload : Bytes := List.replicate (lengthOf ((rest ++ zeros).drop 3)) 0
    obtain ⟨f, written, -⟩ := exists_frame kind_le seven payload List.length_replicate
    refine ⟨f, zeros ++ payload, ?_, List.append_ne_nil_of_left_ne_nil ?_ _⟩
    · rw [written, List.append_assoc]
      rfl
    · exact List.ne_nil_of_length_pos lacking
  · have seven : (rest.take 7).length = 7 := by
      rw [List.length_take]
      omega
    let zeros : Bytes := List.replicate (announced rest - (rest.length - 7)) 0
    have lacking : 0 < zeros.length := by
      rw [List.length_replicate]
      omega
    obtain ⟨f, written, -⟩ := exists_frame kind_le seven (rest.drop 7 ++ zeros) (by
      rw [drop_header, List.length_append, List.length_drop, List.length_replicate]
      omega)
    refine ⟨f, zeros, ?_, List.ne_nil_of_length_pos lacking⟩
    rw [written, ← List.append_assoc, List.take_append_drop]
    rfl

theorem exists_whole {kind : UInt8} (kind_le : kind ≤ 2) {rest : Bytes}
    (enough : 7 + announced rest ≤ rest.length) :
    ∃ f : Frame, kind :: rest = f.bytes ++ rest.drop (7 + announced rest) := by
  have seven : (rest.take 7).length = 7 := by
    rw [List.length_take]
    omega
  obtain ⟨f, written, -⟩ := exists_frame kind_le seven ((rest.drop 7).take (announced rest)) (by
    rw [drop_header, List.length_take, List.length_drop]
    omega)
  refine ⟨f, ?_⟩
  rw [written, List.cons_append, List.append_assoc, ← List.drop_drop, List.take_append_drop,
    List.take_append_drop]

theorem carries_or_breaksOff (bytes : Bytes) :
    (∃ payloads, Carries bytes payloads) ∨ BreaksOff bytes := by
  match bytes with
  | [] => exact .inl ⟨_, .nothing⟩
  | kind :: rest =>
    by_cases unknown : 2 < kind
    · exact .inl ⟨_, .bare kind rest unknown⟩
    · have kind_le := UInt8.not_lt.mp unknown
      by_cases short : rest.length < 7 + announced rest
      · obtain ⟨f, missing, whole, more⟩ := exists_missing kind_le short
        exact .inr ⟨[], f, kind :: rest, missing, rfl, whole, List.cons_ne_nil _ _, more⟩
      · obtain ⟨f, split⟩ := exists_whole kind_le (Nat.le_of_not_lt short)
        rcases carries_or_breaksOff (rest.drop (7 + announced rest)) with
          ⟨payloads, further⟩ | ⟨frames, g, begun, missing, further, whole, some, more⟩
        · rw [split]
          exact .inl ⟨_, .frame f _ payloads further⟩
        · refine .inr ⟨f :: frames, g, begun, missing, ?_, whole, some, more⟩
          rw [split, further, List.flatMap_cons, List.append_assoc]
termination_by bytes.length
decreasing_by
  simp only [List.length_drop, List.length_cons]
  omega

theorem carries_frames (frames : List Frame) :
    Carries (frames.flatMap Frame.bytes) (frames.map Frame.payload) := by
  induction frames with
  | nil => exact .nothing
  | cons f frames ih => exact .frame f _ _ ih

end ExecOutput

open ExecOutput

variable {τ : Type} {transport : Transport τ} {id : String} {command : List String}
  {link : Link τ} {output : Bytes} {fails : Bool}

/-- The daemon runs the command, and these bytes come of it over the connection before it ends or
fails. -/
def Attaches (transport : Transport τ) (id : String) (command : List String) (link : Link τ)
    (output : Bytes) (fails : Bool) : Prop :=
  ∃ (created started : Response) (execId : String) (between after : τ),
    transport (.execCreate id command) link.wire = (.answered created, between) ∧
      created.isSuccess = true ∧ created.json?.bind Daemon.execId? = some execId ∧
      transport (.execStart execId true) between = (.answered started, after) ∧
      started.status = 101 ∧ started.body = output ∧ started.incomplete = fails

theorem exec_of_attaches (h : Attaches transport id command link output fails) :
    (Gateway.engine transport (.exec id command true) link).1 =
      if fails then .error ExecOutput.lost else (ExecOutput.read output).map some := by
  obtain ⟨created, started, execId, between, after, creates, success, named, starts, status, rfl,
    rfl⟩ := h
  have first := Gateway.askFor_of_success Daemon.execId? creates success
  have accepted : started.isSuccess = true := by
    rw [Response.isSuccess, status]
    rfl
  rw [Response.decoded_of_some named] at first
  change (Gateway.exec transport id command true link).1 = _
  rw [Gateway.exec, Gateway.bind_of_ok first,
    Gateway.bind_of_ok (Gateway.ask_of_success starts accepted), Gateway.attached,
    if_neg (not_not.mpr status)]
  cases started.incomplete <;> rfl

def splitFrames : List ExecOutput.Frame :=
  [⟨1, (0, 0, 0), [0xe6, 0x97], by decide, by decide⟩, ⟨1, (0, 0, 0), [0xa5], by decide, by decide⟩]

def splitOutput : Bytes := splitFrames.flatMap Frame.bytes

def splitLink : Link (List Response) := Link.begin
  [⟨201, encodeText "\x7b\"Id\":\"exec1\"\x7d", false⟩, ⟨101, splitOutput, false⟩]

end NodeFleet
