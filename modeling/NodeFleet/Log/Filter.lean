import NodeFleet.Log.Level
import NodeFleet.Text.Cut

set_option autoImplicit false
namespace NodeFleet

abbrev Threshold := Option Level

structure Directive where
  target : String
  threshold : Threshold

namespace Directive

def thresholds : List (String × Threshold) :=
  [("trace", some .trace), ("debug", some .debug), ("info", some .info), ("warn", some .warn),
    ("error", some .error), ("off", none), ("0", none), ("1", some .error), ("2", some .warn),
    ("3", some .info), ("4", some .debug), ("5", some .trace)]

def threshold? (cs : List Char) : Option Threshold :=
  (thresholds.find? (·.1 = lowerAscii (String.ofList cs))).map (·.2)

def isTargetChar (c : Char) : Bool := c.isAlphanum || c = '_' || c = ':' || c = '-'

def read? (cs : List Char) : Option Directive :=
  match threshold? cs with
  | some t => some ⟨"", t⟩
  | none =>
    let (target, level) := cutAt '=' cs
    if target.isEmpty || !target.all isTargetChar then none
    else match level with
      | none | some [] => some ⟨String.ofList target, some .trace⟩
      | some l => (threshold? l).map fun t => ⟨String.ofList target, t⟩

def covers (d : Directive) (target : String) : Bool := d.target.toList.isPrefixOf target.toList

end Directive

abbrev LogFilter := List Directive

namespace LogFilter

def read? (s : String) : Option LogFilter := do
  let pieces := (piecesAt ',' s.toList).filter (!·.isEmpty)
  let directives ← pieces.mapM Directive.read?
  pure (if directives.isEmpty then [⟨"", some .error⟩] else directives)

def ofLevel (level : Level) : LogFilter := [⟨"dockgrid", some level⟩]

/-- A filter given from outside wins over the level of the settings, if it can be read. -/
def choose (given : Option String) (level : Level) : LogFilter :=
  ((given.bind read?).getD (ofLevel level))

/-- The longest directive that covers the target, of equals the last. -/
def deciding? (f : LogFilter) (target : String) : Option Directive :=
  f.foldl (fun best d =>
    if d.covers target then
      match best with
      | none => some d
      | some b => if b.target.length ≤ d.target.length then some d else best
    else best) none

def shows (f : LogFilter) (target : String) (level : Level) : Bool :=
  match (f.deciding? target).bind (·.threshold) with
  | none => false
  | some least => least.severity ≤ level.severity

end LogFilter
end NodeFleet
