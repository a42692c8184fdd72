set_option autoImplicit false
namespace NodeFleet

def nodeName (parent port : String) : String := parent ++ "_" ++ port

theorem nodeName_toList (parent port : String) :
    (nodeName parent port).toList = parent.toList ++ '_' :: port.toList := by
  simp [nodeName]

end NodeFleet
