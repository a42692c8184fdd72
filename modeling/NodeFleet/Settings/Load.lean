import NodeFleet.Json.Reader
import NodeFleet.Settings.Toml
import NodeFleet.Settings.VariableFile
import NodeFleet.Settings.Variables
import NodeFleet.Settings.Yaml
/-!
Loading the settings: the defaults, over them the settings file of the program and that of the
system, over these environment variables, to which a file of variables adds those that are not set.
What reads the formats of settings files is left open. Sources are merged value by value, and only
values that have won are converted.
-/

set_option autoImplicit false
namespace NodeFleet

def Settings.defaultLayer : List (String × SettingValue) :=
  match SettingValue.ofJson Settings.default.toJson with
  | .table entries => entries
  | _ => []

abbrev Files := List (String × String)

namespace Files

def text? (files : Files) (path : String) : Option String :=
  (files.find? (·.1 = path)).map (·.2)

def above (name : String) : Nat → String
  | 0 => name
  | n + 1 => "../" ++ above name n

/-- The file of a name in the working directory, or in the nearest directory above that has one. -/
def nearest? (files : Files) (name : String) : Option String :=
  let highest := (files.map (·.1.length)).foldr max 0
  (List.range (highest + 1)).findSome? fun n => files.text? (above name n)

end Files

namespace SettingsFile

inductive Format
  | json
  | toml
  | yaml
  | ini
  | ron
  | json5
deriving DecidableEq, Repr

def Format.endings : Format → List String
  | .json => ["json"]
  | .toml => ["toml"]
  | .yaml => ["yaml", "yml"]
  | .ini => ["ini"]
  | .ron => ["ron"]
  | .json5 => ["json5"]

/-- What finds and reads settings files. It looks for the formats in an order of its own, and a text
that it does not take for a table of the format has no entries. -/
structure Library where
  order : List Format
  complete : ∀ format, format ∈ order
  entries? : Format → String → Option (List (String × SettingValue))

/-- Settings files without their endings; the second is laid over the first. -/
def ownName : String := "config/dockgrid"

def systemName : String := "/etc/dockgrid/config"

namespace Library

def find? (library : Library) (files : Files) (name : String) : Option (Format × String) :=
  library.order.findSome? fun format =>
    format.endings.findSome? fun ending =>
      (files.text? (name ++ "." ++ ending)).map fun s => (format, s)

/-- The entries of the file of a name; none if it cannot be read, an empty layer if there is none. A
file without an ending has no format and is found before all others: it hides them. -/
def layer? (library : Library) (files : Files) (name : String) :
    Option (List (String × SettingValue)) :=
  match files.text? name with
  | some _ => some []
  | none =>
    match library.find? files name with
    | none => some []
    | some (format, s) => library.entries? format s

end Library

def jsonEntries? (s : String) : Option (Table SettingValue) :=
  match Json.read? s with
  | some (.object fields) => some (Table.ofList (SettingValue.ofJsonFields fields))
  | _ => none

/-- A library to run the program with. It reads JSON, and of TOML and YAML what stands on plain
lines; it refuses everything else. -/
def Library.plain : Library where
  order := [.json, .toml, .yaml, .ini, .ron, .json5]
  complete format := by cases format <;> decide
  entries?
    | .json | .json5 => jsonEntries?
    | .toml => Toml.read?
    | .yaml => Yaml.read?
    | .ini | .ron => fun _ => none

end SettingsFile

namespace Settings

def variableFilePath : String := ".env"

/-- Variables of the process in order of their names, then those that the file adds. -/
def allVariables (environment : Table String) (files : Files) : List (String × String) :=
  match files.nearest? variableFilePath with
  | none => environment
  | some s =>
    let all := VariableFile.load environment s
    environment ++ all.filter fun v => (environment.get? v.1).isNone

def root : SettingValue := SettingValue.layer (.table []) defaultLayer

section
variable (library : SettingsFile.Library) (environment : Table String) (files : Files)

def merged? : Option SettingValue := do
  let own ← library.layer? files SettingsFile.ownName
  let system ← library.layer? files SettingsFile.systemName
  let named := SettingValue.ofVariables (allVariables environment files)
  pure ([own, system, named].foldl SettingValue.layer root)

def decode? (merged : SettingValue) : Option Settings := read? SettingValue.understanding merged

def loadWith : Except SettingsError Settings :=
  match merged? library environment files with
  | none => .error .unreadable
  | some merged =>
    match decode? merged with
    | none => .error .unfitting
    | some settings =>
      match settings.invalid? with
      | some e => .error e
      | none => .ok settings

end

def load : Table String → Files → Except SettingsError Settings := loadWith .plain

end Settings
end NodeFleet
