import NodeFleet.Grid.Slot

set_option autoImplicit false
namespace NodeFleet
namespace Reclaimer

abbrev SessionIds := List String

def retained (terminal : SessionIds) (listed : List SlotSession) : SessionIds :=
  terminal.filter fun id => listed.any fun slot => slot.sessionId = id

def claim (threshold : Span) (terminal : SessionIds) :
    List SlotSession → List SlotSession × SessionIds
  | [] => ([], terminal)
  | slot :: r =>
    if slot.isIdle threshold ∧ slot.sessionId ∉ terminal then
      let (claimed, after) := claim threshold (terminal ++ [slot.sessionId]) r
      (slot :: claimed, after)
    else claim threshold terminal r

/-- One poll: what it claims of the listed slots, and the terminal sessions after it. -/
def poll (threshold : Span) (terminal : SessionIds) (listed : List SlotSession) :
    List SlotSession × SessionIds :=
  claim threshold (retained terminal listed) listed

end Reclaimer
end NodeFleet
