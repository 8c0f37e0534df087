import Arborist.Data.Json
import Arborist.Server.Call
import Arborist.Server.Startup

/-!
The server as a program.  It takes in the files below the working directory, starts with the settings
that its arguments and the environment name, and answers one request a line.
-/

namespace Arborist.Server

def usage : String :=
  "usage: arborist [-h] [--config CONFIG] [--debug] [--disable-cache]"

def readFolder : Nat → Array IO.FS.DirEntry → IO Folder
  | 0, _ => return []
  | depth + 1, entries => do
    let mut folder : Folder := []
    for entry in entries do
      if ← entry.path.isDir then
        folder := folder.put entry.fileName (.directory (← readFolder depth (← entry.path.readDir)))
      else
        let modified := (← entry.path.metadata).modified
        let time := Binary64.ofRat (modified.sec + (modified.nsec.toNat : Rat) / 1000000000)
        folder := folder.put entry.fileName (.file (← IO.FS.readBinFile entry.path) time)
    return folder

def readDepth : Nat := 32

def readStore : IO Store := do
  let directory ← IO.currentDir
  let components := (Path.ofString directory.toString).components
  let folder ← readFolder readDepth (← directory.readDir)
  return {
    root := Folder.putAt [] (.directory folder) components
    workingDirectory := components
    home := (← IO.getEnv "HOME").getD "" }

def readEnvironment : IO Settings.Environment := do
  let names := ["HOME", "MCP_TS_CONFIG_PATH", "MCP_TS_LOG_LEVEL"] ++ Settings.environmentFields.map Prod.fst
  let values ← names.mapM fun name => do return (← IO.getEnv name).map fun value => (name, value)
  return values.filterMap fun value => value

def requestAction (request : Value) : Action Value :=
  let name := Fields.text request "name"
  let arguments := Fields.raw request "arguments" (.object [])
  match Tool.ofCall? name arguments, Prompt.ofCall? name arguments with
  | some tool, _ => tool.run
  | none, some prompt => do return .string (← prompt.render)
  | none, none => throw (.raised s!"unknown tool: {name}")

def respond (service : Service) (line : String) : Value × Service :=
  match Json.parse line with
  | .error fault => (.object [("error", .string (fault.message line))], service)
  | .ok request =>
    match (requestAction request).run service with
    | (.ok value, service) => (.object [("result", value)], service)
    | (.error fault, service) => (.object [("error", .string fault.message)], service)

partial def serve (input output : IO.FS.Stream) (service : Service) : IO Unit := do
  let line ← input.getLine
  if line.isEmpty then return
  let (answer, service) := respond service line
  output.putStrLn (Json.render answer)
  output.flush
  serve input output service

def launch (options : CommandLine) : IO UInt32 := do
  let service : Service :=
    { store := ← readStore, environment := ← readEnvironment, engine := .sketch }
  match (start options .normal).run service with
  | (.ok report, service) =>
    if report.hasRun then serve (← IO.getStdin) (← IO.getStdout) service
    return report.code.toUInt32
  | (.error fault, _) =>
    IO.eprintln fault.message
    return 1

end Arborist.Server

def main (arguments : List String) : IO UInt32 := do
  match Arborist.Server.parseArguments arguments with
  | .options options => Arborist.Server.launch options
  | .help =>
    IO.println Arborist.Server.usage
    return 0
  | .refused reason =>
    IO.eprintln s!"{Arborist.Server.usage}\narborist: error: {reason}"
    return 2
