import NodeFleet.Container.Engine
import NodeFleet.Text.Ascii
import NodeFleet.Text.Blank
import NodeFleet.Text.Cut

set_option autoImplicit false
namespace NodeFleet

def listedName (name : String) : String :=
  match name.toList with
  | '/' :: _ => name
  | _ => "/" ++ name

namespace Summary

/-- Whether the first name is this one, up to the case of ASCII letters. -/
def answersTo (s : Summary) (listed : String) : Bool :=
  match s.names with
  | [] => false
  | n :: _ => sameIgnoringCase n listed

def isRunning (s : Summary) (image : String) : Bool :=
  holdsText s.image image && !sameIgnoringCase s.state "exited"

end Summary

def idByName? (listing : List Summary) (name : String) : Option String :=
  (listing.find? (·.answersTo (listedName name))).map (·.id)

def runningCount (listing : List Summary) (image : String) : Nat :=
  (listing.filter (·.isRunning image)).length

def Detail.address? (d : Detail) : Option String :=
  if !isBlank d.ipAddress then some d.ipAddress
  else (d.networks.map (·.ipAddress)).find? (!isBlank ·)

namespace Image

/-- The newer of two images; of equally old ones the later in the listing. -/
def newer (a b : Image) : Image := if a.created ≤ b.created then b else a

def newest? : List Image → Option Image
  | [] => none
  | i :: r => some (r.foldl newer i)

def latestTag? (images : List Image) : Option String :=
  (newest? (images.filter (!·.repoTags.isEmpty))).bind (·.repoTags.head?)

end Image
end NodeFleet
