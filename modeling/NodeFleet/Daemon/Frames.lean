import NodeFleet.Container.Fault
import NodeFleet.Text.Utf8
/-!
Output of a command. It comes in frames: a kind from 0 to 2, three bytes without meaning, the
length of the payload in four bytes, and the payload. Where a byte above 2 stands in place of a
kind, all the rest is output without frames.
-/

set_option autoImplicit false
namespace NodeFleet
namespace ExecOutput

def lengthOf : Bytes → Nat
  | [a, b, c, d] => ((a.toNat * 256 + b.toNat) * 256 + c.toNat) * 256 + d.toNat
  | _ => 0

/-- The payloads in order; none if the last frame breaks off. -/
def payloads? (bytes : Bytes) : Option (List Bytes) :=
  match h : bytes with
  | [] => some []
  | kind :: rest =>
    if 2 < kind then some [kind :: rest]
    else
      let length := lengthOf ((rest.drop 3).take 4)
      if rest.length < 7 + length then none
      else (payloads? (rest.drop (7 + length))).map ((rest.drop 7).take length :: ·)
termination_by bytes.length
decreasing_by
  simp only [List.length_drop, List.length_cons]
  omega

/-- The text of all output, each payload decoded on its own. -/
def text? (bytes : Bytes) : Option String :=
  (payloads? bytes).map fun ps => String.join (ps.map decodeLossy)

def interrupted : Fault := .outputInterrupted "bytes remaining on stream"

def lost : Fault := .outputInterrupted "transport"

def read (bytes : Bytes) : Except Fault String :=
  match text? bytes with
  | some s => .ok s
  | none => .error interrupted

end ExecOutput
end NodeFleet
