import NodeFleet.Table

set_option autoImplicit false
namespace NodeFleet

structure Summary where
  id : String
  names : List String
  image : String
  state : String
deriving DecidableEq, Repr, Inhabited

structure Mount where
  source : String
  destination : String
deriving DecidableEq, Repr, Inhabited

structure AttachedNetwork where
  name : String
  ipAddress : String
deriving DecidableEq, Repr, Inhabited

/-- An inspected container. The address is the one on the default bridge, empty if it has none. -/
structure Detail where
  id : String
  name : String
  env : List String
  mounts : List Mount
  extraHosts : List String
  ipAddress : String
  networks : List AttachedNetwork
deriving DecidableEq, Repr, Inhabited

/-- The host side of a port. An empty address leaves the choice to the engine. -/
structure PortBinding where
  hostIp : String
  hostPort : String
deriving DecidableEq, Repr, Inhabited

structure Spec where
  name : String
  image : String
  env : List String
  exposedPorts : List String
  binds : List String
  portBindings : Table PortBinding
  networkMode : String
  extraHosts : List String
  autoRemove : Bool
  privileged : Bool
deriving DecidableEq, Repr, Inhabited

structure Image where
  id : String
  repoTags : List String
  created : Int
deriving DecidableEq, Repr, Inhabited

structure HostInfo where
  name : String
deriving DecidableEq, Repr, Inhabited

end NodeFleet
