import Arborist.Cache.Basic
import Arborist.Project.Basic
import Arborist.Settings.Load

/-!
The state of the service and actions on it.  An action that fails keeps the changes it made before.
-/

namespace Arborist

structure LogState where
  level : Int := 0
  propagates : Bool := true
deriving Inhabited

structure Service where
  store : Store := {}
  environment : Settings.Environment := []
  clock : Binary64 := .finite 1000000
  engine : Engine := .recorded {}
  engineLog : EngineLog := {}
  settings : Settings := {}
  cache : TreeCache := {}
  projects : ProjectList := []
  registry : LanguageRegistry := {}
  logging : LogState := {}
  compiled : List String := []
  dependencies : List (String × Value) := []

abbrev Action := ExceptT Fault (StateM Service)

namespace Action

def lift (result : Except Fault α) : Action α := ExceptT.mk (pure result)

def onStore (read : Store → Except Fault α) : Action α := do lift (read (← get).store)

def mapFault (action : Action α) (wrap : Fault → Fault) : Action α :=
  tryCatchThe Fault action fun fault => throw (wrap fault)

def attempt (action : Action α) : Action (Except Fault α) :=
  tryCatchThe Fault (do return .ok (← action)) fun fault => return .error fault

def run (action : Action α) (service : Service) : Except Fault α × Service :=
  StateT.run (ExceptT.run action) service

end Action

namespace Service

def now : Action Binary64 := do return (← get).clock

def loadLanguage (language : String) : Action Unit := do
  let service ← get
  let registry ← Action.lift (service.registry.load service.engine language)
  modify fun service => { service with registry }

def loadParser (language : String) : Action Unit := do
  let service ← get
  let registry ← Action.lift (service.registry.loadParser service.engine language)
  modify fun service => { service with registry }

def parseSource (source : ByteArray) (previous : Option Tree) : Action Tree := do
  let service ← get
  let (tree, engineLog) ← Action.lift (service.engine.parse service.engineLog source previous)
  modify fun service => { service with engineLog }
  return tree

def editTree (tree : Tree) (edit : Edit) : Action Unit := do
  let service ← get
  let engineLog ← Action.lift (service.engine.edit service.engineLog tree edit)
  modify fun service => { service with engineLog }

def compileQuery (text : String) : Action Query := do
  let query ← Action.lift ((← get).engine.compile text)
  modify fun service => { service with compiled := service.compiled ++ [queryKey text] }
  return query

def runQuery (text : String) (tree : Tree) : Action Captures := do
  let query ← compileQuery text
  return (← get).engine.run query tree

def findProject (name : String) : Action Project := do
  Action.lift (ProjectList.find (← get).projects name)

end Service

end Arborist
