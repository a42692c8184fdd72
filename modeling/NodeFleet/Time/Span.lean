import NodeFleet.Json.Record

set_option autoImplicit false
namespace NodeFleet

def nanosPerSecond : Nat := 1000000000

structure Span where
  secs : Nat
  nanos : Nat
  nanos_lt : nanos < nanosPerSecond
deriving DecidableEq

namespace Span

def ofNanos (n : Nat) : Span :=
  ⟨n / nanosPerSecond, n % nanosPerSecond, Nat.mod_lt _ (by decide)⟩

def toNanos (d : Span) : Nat := d.secs * nanosPerSecond + d.nanos

def ofSecs (n : Nat) : Span := ⟨n, 0, by decide⟩

def ofMillis (n : Nat) : Span := ofNanos (n * 1000000)

def zero : Span := ofSecs 0

instance : Inhabited Span := ⟨zero⟩

/-- Carries surplus nanoseconds; none if the seconds leave 64 bits. -/
def ofParts? (secs nanos : Nat) : Option Span :=
  let d := ofNanos (secs * nanosPerSecond + nanos)
  if d.secs ≤ maxU64 then some d else none

def le (a b : Span) : Bool := a.toNanos ≤ b.toNanos

def fieldNames : List String := ["secs", "nanos"]

def ofJson? (v : Json) : Option Span :=
  let known := match v with
    | .object fields => fields.all fun f => fieldNames.contains f.1
    | _ => true
  if known then
    match v.record? fieldNames with
    | some [some secs, some nanos] => do
      let secs ← secs.asUnsigned? maxU64
      let nanos ← nanos.asUnsigned? maxU32
      ofParts? secs nanos
    | _ => none
  else none

def toJson (d : Span) : Json :=
  .object [("secs", .natural d.secs), ("nanos", .natural d.nanos)]

@[simp] theorem toNanos_ofNanos (n : Nat) : (ofNanos n).toNanos = n := by
  simp only [ofNanos, toNanos]
  exact Nat.div_add_mod' n nanosPerSecond

@[simp] theorem ofNanos_toNanos (d : Span) : ofNanos d.toNanos = d := by
  obtain ⟨s, n, h⟩ := d
  have hd : (s * nanosPerSecond + n) / nanosPerSecond = s := by
    simp only [nanosPerSecond] at h ⊢
    omega
  have hm : (s * nanosPerSecond + n) % nanosPerSecond = n := by
    simp only [nanosPerSecond] at h ⊢
    omega
  simp [ofNanos, toNanos, hd, hm]

theorem nanos_le_maxU32 (d : Span) : d.nanos ≤ maxU32 :=
  Nat.le_trans (Nat.le_of_lt d.nanos_lt) (by decide)

theorem ofParts?_own {d : Span} (h : d.secs ≤ maxU64) : ofParts? d.secs d.nanos = some d := by
  have own : ofNanos (d.secs * nanosPerSecond + d.nanos) = d := ofNanos_toNanos d
  rw [ofParts?, own]
  exact if_pos h

theorem secs_le_of_ofJson? {v : Json} {d : Span} (h : ofJson? v = some d) : d.secs ≤ maxU64 := by
  unfold ofJson? at h
  obtain ⟨_, h⟩ := Option.ite_none_right_eq_some.mp h
  split at h
  · obtain ⟨secs, _, h⟩ := Option.bind_eq_some_iff.mp h
    obtain ⟨nanos, _, h⟩ := Option.bind_eq_some_iff.mp h
    obtain ⟨fits, h⟩ := Option.ite_none_right_eq_some.mp h
    exact Option.some.inj h ▸ fits
  · cases h

theorem ofJson?_toJson {d : Span} (h : d.secs ≤ maxU64) : ofJson? d.toJson = some d := by
  have parts : d.toJson.record? fieldNames =
      some [some (.natural d.secs), some (.natural d.nanos)] :=
    Json.record?_object [.natural d.secs, .natural d.nanos] (by decide) rfl
  unfold ofJson?
  rw [parts]
  change ((Json.natural d.secs).asUnsigned? maxU64).bind (fun secs =>
    ((Json.natural d.nanos).asUnsigned? maxU32).bind (ofParts? secs)) = some d
  rw [Json.asUnsigned?_natural h, Option.bind_some,
    Json.asUnsigned?_natural d.nanos_le_maxU32, Option.bind_some, ofParts?_own h]

end Span
end NodeFleet
