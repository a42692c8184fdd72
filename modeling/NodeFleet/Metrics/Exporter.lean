set_option autoImplicit false
namespace NodeFleet

inductive Installation
  /-- Serves a page of measurements over HTTP. -/
  | exporter
  | recorder
deriving DecidableEq, Repr

namespace Installation

def refusal : Installation → String
  | .exporter => "Failed to install Prometheus exporter"
  | .recorder => "Failed to install Prometheus recorder"

def outcomes (installed : Bool) : List Installation → List (Except String Unit)
  | [] => []
  | i :: r => (if installed then .error i.refusal else .ok ()) :: outcomes true r

def servesPage (installations : List Installation) : Bool :=
  installations.head? == some .exporter

/-- The program's own lines of the page, if one is served. The page lists no measurement by itself. -/
def pageLines? (installations : List Installation) : Option (List String) :=
  if servesPage installations then some [] else none

end Installation
end NodeFleet
