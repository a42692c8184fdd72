import NodeFleet.Time.Span

set_option autoImplicit false
namespace NodeFleet

inductive SessionEnd
  | reclaimed
  | completed
deriving DecidableEq, Repr

def SessionEnd.label : SessionEnd → String
  | .reclaimed => "reclaimed"
  | .completed => "completed"

inductive Sample
  | created (image : String)
  | failed (image : String)
  | stopped
  | running (image : String) (count : Nat)
  | ended (proxy : String) (how : SessionEnd)
  | lasted (proxy : String) (how : SessionEnd) (duration : Span)
deriving DecidableEq

namespace Sample

def metric : Sample → String
  | .created _ => "dockgrid_containers_created_total"
  | .failed _ => "dockgrid_containers_failed_total"
  | .stopped => "dockgrid_containers_stopped_total"
  | .running .. => "dockgrid_running_nodes"
  | .ended _ .reclaimed => "dockgrid_sessions_reclaimed_total"
  | .ended _ .completed => "dockgrid_sessions_completed_total"
  | .lasted .. => "dockgrid_session_duration_seconds"

def labels : Sample → List (String × String)
  | .created image | .failed image | .running image _ => [("image", image)]
  | .stopped => []
  | .ended proxy _ => [("proxy", proxy)]
  | .lasted proxy how _ => [("proxy", proxy), ("outcome", how.label)]

def kind : Sample → String
  | .running .. => "gauge"
  | .lasted .. => "histogram"
  | _ => "counter"

/-- A counter grows by one; of a duration only whether it is zero is told. -/
def value : Sample → Json
  | .running _ n => .natural n
  | .lasted _ _ d => .text (if d.toNanos = 0 then "zero" else "positive")
  | _ => .natural 1

def toJson (s : Sample) : Json :=
  .object [("metric", .text s.metric), ("labels", .object (s.labels.map fun l => (l.1, .text l.2))),
    ("kind", .text s.kind), ("value", s.value)]

end Sample
end NodeFleet
