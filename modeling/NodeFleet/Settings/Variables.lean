import NodeFleet.Settings.Value

set_option autoImplicit false
namespace NodeFleet
namespace SettingValue

def variablePrefix : List Char := "dockgrid__".toList

def dotted : List Char → List Char
  | '_' :: '_' :: r => '.' :: dotted r
  | c :: r => c :: dotted r
  | [] => []

def variableKey? (name : String) : Option String :=
  let key := (lowerKey name).toList
  if variablePrefix.isPrefixOf key then
    some (String.ofList (dotted (key.drop variablePrefix.length)))
  else none

/-- A truth value, else a whole number, else a number, else the text itself. -/
def ofVariable (s : String) : SettingValue :=
  if lowerAscii s = "true" then .flag true
  else if lowerAscii s = "false" then .flag false
  else match readSigned? maxI64 s with
    | some n => .whole n
    | none =>
      match Binary64.read? s with
      | some x => .number x
      | none => .text s

def ofVariables (entries : List (String × String)) : List (String × SettingValue) :=
  entries.filterMap fun v => (variableKey? v.1).map fun key => (key, ofVariable v.2)

end SettingValue
end NodeFleet
