import Arborist.Service.State

/-!
Changing the settings while the service runs.  The cache and the loggers follow what a settings
document says; a single value that is set is stored as it is given.
-/

namespace Arborist.Service

/-- What the name of a level stands for.  Names are looked up where other things have names too. -/
inductive LevelMeaning where
  | level (value : Int)
  | thing (shown : String)
  | words (text : String)
  | unknown
deriving DecidableEq, Repr

def levelNames : List (String × Int) :=
  [("DEBUG", 10), ("INFO", 20), ("WARN", 30), ("WARNING", 30), ("ERROR", 40), ("CRITICAL", 50),
    ("FATAL", 50), ("NOTSET", 0), ("raiseExceptions", 1), ("logThreads", 1), ("logMultiprocessing", 1),
    ("logProcesses", 1)]

def functionNames : List String :=
  ["debug", "info", "warning", "warn", "error", "critical", "fatal", "exception", "log", "addLevelName",
    "basicConfig", "captureWarnings", "disable", "getLevelName", "getLevelNamesMapping",
    "getLogRecordFactory", "getLogger", "getLoggerClass", "makeLogRecord", "setLogRecordFactory",
    "setLoggerClass", "shutdown", "_acquireLock", "_addHandlerRef", "_after_at_fork_child_reinit_locks",
    "_checkLevel", "_is_internal_frame", "_register_at_fork_reinit_lock", "_releaseLock",
    "_removeHandlerRef", "_showwarning"]

def classNames : List String :=
  ["BufferingFormatter", "FileHandler", "Filter", "Filterer", "Formatter", "Handler", "LogRecord", "Logger",
    "LoggerAdapter", "Manager", "NullHandler", "PercentStyle", "PlaceHolder", "RootLogger",
    "StrFormatStyle", "StreamHandler", "StringTemplateStyle", "_StderrHandler"]

def thingNames : List (String × String) :=
  [("GenericAlias", "<class 'types.GenericAlias'>"), ("Template", "<class 'string.Template'>"),
    ("_logRecordFactory", "<class 'logging.LogRecord'>"), ("_loggerClass", "<class 'logging.Logger'>"),
    ("atexit", "<module 'atexit' (built-in)>"), ("io", "<module 'io' (frozen)>"),
    ("os", "<module 'os' (frozen)>"), ("sys", "<module 'sys' (built-in)>"),
    ("time", "<module 'time' (built-in)>"), ("lastResort", "<_StderrHandler <stderr> (WARNING)>")]

def textNames : List (String × String) :=
  [("BASIC_FORMAT", "%(levelname)s:%(name)s:%(message)s"), ("__name__", "logging"),
    ("__package__", "logging"), ("__status__", "production")]

def LevelMeaning.ofName (name : String) : LevelMeaning :=
  match levelNames.lookup name, thingNames.lookup name, textNames.lookup name with
  | some value, _, _ => .level value
  | none, some shown, _ => .thing shown
  | none, none, some text => .words text
  | none, none, none =>
    if functionNames.contains name then .thing s!"<function {name}>"
    else if classNames.contains name then .thing s!"<class 'logging.{name}'>"
    else .unknown

def setLevel (level : Int) : Action Unit :=
  modify fun service => { service with logging := { service.logging with level } }

/-- Gives the loggers a level by its name; a level of zero is passed over. -/
def applyLevel (name : Value) : Action Unit := do
  match name with
  | .string name =>
    match LevelMeaning.ofName name with
    | .level value => if value != 0 then setLevel value
    | .thing shown => throw (.badLevel shown)
    | .words text => throw (.unknownLevel text)
    | .unknown => return
  | _ => throw .levelNameKind

def assignSetting (path : String) (value : Value) : Action Unit := do
  modify fun service => { service with settings := service.settings.assign path value }
  if path == "log_level" then applyLevel value

def loadSettings (path : String) : Action Unit := do
  let service ← get
  match Settings.document? service.store (Path.ofString path).text with
  | none => return
  | some loaded =>
    match service.settings.adopt loaded with
    | .error _ => return
    | .ok settings =>
      let fields : Except Fault (Value × Value × Value) := do
        return (← settings.cacheEnabled, ← settings.maxSizeMb, ← settings.ttlSeconds)
      modify fun service => { service with settings }
      match fields with
      | .error _ => return
      | .ok (enabled, maxSizeMb, ttlSeconds) =>
        modify fun service =>
          { service with cache := { service.cache with enabled, maxSizeMb, ttlSeconds } }
        let _ ← Action.attempt (applyLevel settings.logLevel)

structure Changes where
  document : Value := .null
  cacheEnabled : Value := .null
  maxFileSizeMb : Value := .null
  logLevel : Value := .null

def isAsked : Value → Bool
  | .null => false
  | _ => true

def assignCacheEnabled (enabled : Value) : Action Unit := do
  assignSetting "cache.enabled" enabled
  modify fun service => { service with cache := { service.cache with enabled } }

def quietLevels : List String := ["INFO", "WARNING", "ERROR", "CRITICAL"]

def configure (changes : Changes) : Action Value := do
  if !changes.document.isVoid then loadSettings changes.document.text
  if isAsked changes.cacheEnabled then assignCacheEnabled changes.cacheEnabled
  if isAsked changes.maxFileSizeMb then assignSetting "security.max_file_size_mb" changes.maxFileSizeMb
  if isAsked changes.logLevel then
    assignSetting "log_level" changes.logLevel
    match changes.logLevel with
    | .string name =>
      if quietLevels.contains name then
        modify fun service => { service with logging := { service.logging with propagates := false } }
    | _ => return (← Action.lift (← get).settings.summary)
  Action.lift (← get).settings.summary

def checkSizes : Action Unit := do
  let settings := (← get).settings
  let _ ← Action.lift settings.maxSizeMb
  let _ ← Action.lift settings.maxFileSizeMb
  let _ ← Action.lift settings.defaultMaxDepth

def loadAbsolute (document : Value) : Action Unit := do
  let directory := (← get).store.workingDirectory
  loadSettings ((Path.ofString document.text).absoluteFrom directory).text

/-- Changes settings as a tool does: the sizes must be there before. -/
def configureTool (changes : Changes) : Action Value := do
  checkSizes
  if !changes.document.isVoid then loadAbsolute changes.document
  if isAsked changes.cacheEnabled then assignCacheEnabled changes.cacheEnabled
  if isAsked changes.maxFileSizeMb then assignSetting "security.max_file_size_mb" changes.maxFileSizeMb
  if isAsked changes.logLevel then assignSetting "log_level" changes.logLevel
  Action.lift (← get).settings.summary

/-- Changes settings as a server does: a level of zero counts too, and all settings are told. -/
def configureServer (changes : Changes) : Action (Value × Settings) := do
  checkSizes
  if !changes.document.isVoid then
    loadAbsolute changes.document
    checkSizes
  if isAsked changes.cacheEnabled then assignCacheEnabled changes.cacheEnabled
  if isAsked changes.maxFileSizeMb then assignSetting "security.max_file_size_mb" changes.maxFileSizeMb
  if isAsked changes.logLevel then
    assignSetting "log_level" changes.logLevel
    if changes.logLevel.text == "NOTSET" then setLevel 0
  checkSizes
  let settings := (← get).settings
  return (← Action.lift settings.summary, settings)

end Arborist.Service
