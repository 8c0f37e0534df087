import Arborist.Settings.Update
import Arborist.Data.Yaml.Load
import Arborist.Text.Lines

/-!
Settings from documents.  A document that is missing, unreadable, empty or not valid leaves
everything as it is.
-/

namespace Arborist.Settings

def readText (store : Store) (path : String) : Except Fault String := do
  let bytes ← liftFile (store.readBytes path)
  match String.fromUTF8? bytes with
  | some text => return String.ofList (Text.unifyNewlines text.toList)
  | none => throw (.raised "'utf-8' codec can't decode bytes")

def ofDocument (store : Store) (path : String) : Settings :=
  if !store.fileExists (Path.ofString path) then {}
  else
    let loaded : Except Fault Settings := do
      let text ← readText store (Path.ofString path).text
      match Yaml.load? text with
      | some .null => return {}
      | some (.map entries) => ofEntries entries
      | _ => throw (.raised "not a mapping")
    match loaded with
    | .ok settings => settings
    | .error _ => {}

/-- What a document sets: the settings of a mapping that is valid, else nothing. -/
def document? (store : Store) (path : String) : Option Settings :=
  match readText store path with
  | .error _ => none
  | .ok text =>
    if (Text.strip text.toList).isEmpty then none
    else
      match Yaml.load? text with
      | some (.map entries) => (ofEntries entries).toOption
      | _ => none

def defaultPath? (store : Store) (environment : Environment) : Option Path :=
  let home := (environment.lookup "HOME").getD ""
  let path := (Path.ofString home).join (Path.ofString ".config/tree-sitter/config.yaml")
  if store.fileExists path then some path else none

def loadDocument (store : Store) (path : Path) : Settings :=
  if !store.fileExists path then {}
  else
    match readText store path.text with
    | .error _ => {}
    | .ok text =>
      if (Text.strip text.toList).isEmpty then {}
      else
        match adopt {} (ofDocument store path.text) with
        | .ok settings => settings
        | .error _ => {}

/-- The settings to start with: those of the document that is named, else of the one the environment
names, else of the one at the standard place, else those of the environment. -/
def load (store : Store) (environment : Environment) (path : Option String) : Except Fault Settings :=
  let named := match path with
    | some "" => none
    | other => other
  match named with
  | some path => .ok (loadDocument store (Path.ofString path))
  | none =>
    match valueOf? environment "MCP_TS_CONFIG_PATH" with
    | some path => .ok (loadDocument store (Path.ofString path))
    | none =>
      match defaultPath? store environment with
      | some path => .ok (loadDocument store path)
      | none => do adopt {} (← ofEnvironment environment)

end Arborist.Settings
