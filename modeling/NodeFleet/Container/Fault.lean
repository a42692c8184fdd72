set_option autoImplicit false
namespace NodeFleet

inductive Fault
  | unavailable (detail : String)
  | timedOut (detail : String)
  | notFound (detail : String)
  /-- The command ran but its output could not be read to the end. -/
  | outputInterrupted (detail : String)
deriving DecidableEq, Repr, Inhabited

namespace Fault

def message : Fault → String
  | .unavailable d => "Container runtime unavailable: " ++ d
  | .timedOut d => "Container runtime operation timed out: " ++ d
  | .notFound d => "Not found: " ++ d
  | .outputInterrupted d => "Output stream interrupted: " ++ d

end Fault

structure ConfigurationError where
  detail : String
deriving DecidableEq, Repr, Inhabited

def ConfigurationError.message (e : ConfigurationError) : String :=
  "Configuration error: " ++ e.detail

end NodeFleet
