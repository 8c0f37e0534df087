import Arborist.Service.State

/-!
Finding out what is wrong with a settings document.  A document that is right is taken over.
-/

namespace Arborist.Service

def sizesOf (settings : Settings) : Except Fault Value := do
  return .object [("cache.max_size_mb", ← settings.maxSizeMb),
    ("security.max_file_size_mb", ← settings.maxFileSizeMb),
    ("language.default_max_depth", ← settings.defaultMaxDepth)]

structure Diagnosis where
  path : String
  fileExists : Bool := false
  content : Option String := none
  data : Option Value := none
  before : Value := .null
  loaded : Option Value := none
  after : Value := .null
  problem : Option String := none

def Diagnosis.toValue (diagnosis : Diagnosis) : Value :=
  .object ([("file_path", .string diagnosis.path), ("exists", .bool diagnosis.fileExists),
      ("readable", .bool diagnosis.content.isSome), ("yaml_valid", .bool diagnosis.data.isSome),
      ("parsed_data", diagnosis.data.getD .null), ("config_before", diagnosis.before),
      ("config_after", diagnosis.after), ("error", .ofOption .string diagnosis.problem)] ++
    (match diagnosis.content with
      | some content => [("file_content", .string content)]
      | none => []) ++
    (match diagnosis.loaded with
      | some loaded => [("new_config", loaded)]
      | none => []))

def tryDocument (diagnosis : Diagnosis) (entries : List (Value × Value)) : Action Diagnosis := do
  let failed (diagnosis : Diagnosis) (fault : Fault) : Diagnosis :=
    { diagnosis with problem := some s!"Error updating config: {fault.message}" }
  let settings := (← get).settings
  match sizesOf settings with
  | .error fault => return failed diagnosis fault
  | .ok before =>
    let diagnosis := { diagnosis with before }
    match Settings.ofEntries entries with
    | .error fault => return failed diagnosis fault
    | .ok loaded =>
      match sizesOf loaded with
      | .error fault => return failed diagnosis fault
      | .ok sizes =>
        let diagnosis := { diagnosis with loaded := some sizes }
        match settings.adopt loaded with
        | .error fault => return failed diagnosis fault
        | .ok settings =>
          modify fun service => { service with settings }
          match sizesOf settings with
          | .error fault => return failed diagnosis fault
          | .ok after => return { diagnosis with after }

def diagnoseSettings (path : String) : Action Diagnosis := do
  let store := (← get).store
  let diagnosis : Diagnosis := { path }
  if !store.fileExists (Path.ofString path) then
    return { diagnosis with problem := some s!"File does not exist: {path}" }
  let diagnosis := { diagnosis with fileExists := true }
  match Settings.readText store (Path.ofString path).text with
  | .error _ => return { diagnosis with problem := some "Error reading file:" }
  | .ok content =>
    let diagnosis := { diagnosis with content := some content }
    match Yaml.load? content with
    | none => return { diagnosis with problem := some "Error parsing YAML:" }
    | some data =>
      let diagnosis := { diagnosis with data := some data }
      match data with
      | .null =>
        return { diagnosis with
          problem := some "YAML parser returned None (file empty or contains only comments)" }
      | .map entries => tryDocument diagnosis entries
      | other =>
        return { diagnosis with
          problem := some s!"YAML parser returned non-dict: <class '{other.kindName}'>" }

end Arborist.Service
