set_option autoImplicit false
namespace NodeFleet

def lowerAscii (s : String) : String := String.ofList (s.toList.map Char.toLower)

def sameIgnoringCase (s t : String) : Bool :=
  s.toList.map Char.toLower == t.toList.map Char.toLower

/-- The one letter outside ASCII whose lower case is an ASCII letter is the Kelvin sign. -/
def lowerLetter (c : Char) : Char := if c = '\u212a' then 'k' else c.toLower

/--
Lower case for keys. Letters that lower to something outside ASCII are left alone: no known key
holds such a letter.
-/
def lowerKey (s : String) : String := String.ofList (s.toList.map lowerLetter)

theorem sameIgnoringCase_refl (s : String) : sameIgnoringCase s s = true := by
  simp [sameIgnoringCase]

theorem sameIgnoringCase_iff {s t : String} :
    sameIgnoringCase s t = true ↔ lowerAscii s = lowerAscii t := by
  rw [sameIgnoringCase, beq_iff_eq, lowerAscii, lowerAscii]
  constructor
  · intro same
    rw [same]
  · intro same
    simpa using congrArg String.toList same

end NodeFleet
