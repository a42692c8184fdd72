import NodeFleet.Daemon.Response
import NodeFleet.Json.Printer
import NodeFleet.Log.Line
import NodeFleet.Monitor

set_option autoImplicit false
namespace NodeFleet
namespace CommandLine

def definition? (entry : List Char) : Option (String × String) :=
  match cutAt '=' entry with
  | (name, some value) => some (String.ofList name, String.ofList value)
  | _ => none

def readEnvironment : IO (Table String) := do
  match ← (IO.FS.readFile "/proc/self/environ").toBaseIO with
  | .ok text => pure (Table.ofList ((piecesAt '\x00' text.toList).filterMap definition?))
  | .error _ => pure []

def settingsPaths : List String :=
  let endings := SettingsFile.Library.plain.order.flatMap SettingsFile.Format.endings
  [SettingsFile.ownName, SettingsFile.systemName].flatMap fun name =>
    name :: endings.map fun ending => name ++ "." ++ ending

/-- Above the root there is only the root again, so that it does no harm to climb too far. -/
def variablePaths : List String := (List.range 256).map (Files.above Settings.variableFilePath)

def readFiles : IO Files := do
  let mut found := []
  for path in settingsPaths ++ variablePaths do
    match ← (IO.FS.readFile path).toBaseIO with
    | .ok text => found := (path, text) :: found
    | .error _ => pure ()
  pure found

def response? (line : String) : Option Response := do
  let v ← Json.read? line
  let status ← (← v.field? "status").asUnsigned? maxU16
  pure ⟨status, encodeText (((v.field? "body").getD .null).render), false⟩

partial def readResponses (input : IO.FS.Stream) : IO (List Response) := do
  let line ← input.getLine
  if line.isEmpty then pure []
  else
    let rest ← readResponses input
    pure ((response? line).toList ++ rest)

end CommandLine
end NodeFleet

open NodeFleet CommandLine in
def main : IO UInt32 := do
  let environment ← readEnvironment
  let files ← readFiles
  let responses ← readResponses (← IO.getStdin)
  let run := Run.ofProgram environment files Transport.ofList responses 1
  for n in run.notes do
    IO.println n.toJson.render
  for line in run.complaint do
    IO.eprintln line
  pure (UInt32.ofNat run.exitCode)
