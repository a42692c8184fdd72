import NodeFleet.Number.Digits

set_option autoImplicit false
namespace NodeFleet

structure Port where
  number : Nat
  number_le : number ≤ maxU16
deriving DecidableEq, Repr

namespace Port

def ofNat? (n : Nat) : Option Port := if h : n ≤ maxU16 then some ⟨n, h⟩ else none

/-- Digits with an optional plus sign; leading zeros do not count. -/
def ofText? (s : String) : Option Port := (readUnsigned? maxU16 s).bind ofNat?

def text (p : Port) : String := toString p.number

def previewGap : Nat := 10000

def preview? (p : Port) : Option Port := ofNat? (p.number + previewGap)

theorem ofNat?_eq_some {n : Nat} {p : Port} : ofNat? n = some p ↔ p.number = n := by
  obtain ⟨m, hm⟩ := p
  simp only [ofNat?]
  split
  · simp [eq_comm]
  · rename_i h
    constructor
    · intro h'
      cases h'
    · rintro rfl
      exact absurd hm h

theorem ofNat?_eq_none {n : Nat} : ofNat? n = none ↔ maxU16 < n := by
  simp only [ofNat?]
  split
  · rename_i h
    simp
    omega
  · rename_i h
    simp
    omega

theorem ofText?_eq_some_iff {s : String} {p : Port} :
    ofText? s = some p ↔ WritesUnsigned s p.number := by
  rw [ofText?, Option.bind_eq_some_iff]
  constructor
  · rintro ⟨n, read, named⟩
    rw [ofNat?_eq_some.mp named]
    exact (readUnsigned?_eq_some_iff.mp read).1
  · intro writes
    exact ⟨p.number, readUnsigned?_eq_some_iff.mpr ⟨writes, p.number_le⟩, ofNat?_eq_some.mpr rfl⟩

theorem ofText?_text (p : Port) : ofText? p.text = some p := by
  rw [ofText?, text, readUnsigned?_toString p.number_le]
  exact ofNat?_eq_some.mpr rfl

theorem preview?_eq_none {p : Port} : p.preview? = none ↔ maxU16 < p.number + previewGap :=
  ofNat?_eq_none

theorem preview?_eq_some {p q : Port} :
    p.preview? = some q ↔ q.number = p.number + previewGap := ofNat?_eq_some

end Port
end NodeFleet
