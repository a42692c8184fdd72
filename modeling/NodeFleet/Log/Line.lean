import NodeFleet.Log.Note

set_option autoImplicit false
namespace NodeFleet
namespace Note

def toJson (n : Note) : Json :=
  .object [("level", .text n.level.label), ("target", .text n.target),
    ("fields", .object (("message", .text n.message) :: n.fields))]

end Note
end NodeFleet
