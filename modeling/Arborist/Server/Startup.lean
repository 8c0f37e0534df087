import Arborist.Server.CommandLine
import Arborist.Service.Configure

/-!
Starting the server: from the command line, or as it is.
-/

namespace Arborist.Server

inductive RunEnd where
  | normal
  | interrupted
  | failed
deriving DecidableEq, Repr

structure StartReport where
  code : Nat
  hasRun : Bool
  debug : Bool
deriving DecidableEq, Repr

/-- Takes over the settings to start with: all of a document that is named, else some single
values. -/
def applyStartSettings (commandLine : CommandLine) : Action Unit := do
  let service ← get
  let loaded ← Action.lift (Settings.load service.store service.environment commandLine.document)
  match commandLine.document with
  | some "" | none =>
    Service.assignSetting "cache.enabled" (← Action.lift loaded.cacheEnabled)
    Service.assignSetting "cache.max_size_mb" (← Action.lift loaded.maxSizeMb)
    Service.assignSetting "security.max_file_size_mb" (← Action.lift loaded.maxFileSizeMb)
    Service.assignSetting "language.default_max_depth" (← Action.lift loaded.defaultMaxDepth)
  | some path => Service.loadSettings path

def start (commandLine : CommandLine) (runEnd : RunEnd) : Action StartReport := do
  match ← Action.attempt (applyStartSettings commandLine) with
  | .error _ => return ⟨1, false, commandLine.debug⟩
  | .ok _ => return ⟨if runEnd = .failed then 1 else 0, runEnd = .normal, commandLine.debug⟩

def prepareCache : Action Unit := do
  let settings := (← get).settings
  let maxSizeMb ← Action.lift settings.maxSizeMb
  modify fun service => { service with cache := { service.cache with maxSizeMb } }
  let enabled ← Action.lift settings.cacheEnabled
  modify fun service => { service with cache := { service.cache with enabled } }

end Arborist.Server
