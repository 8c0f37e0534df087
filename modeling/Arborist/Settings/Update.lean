import Arborist.Settings.Validate
import Arborist.Text.Find

/-!
Changes to settings: a single value by its dotted name, all values from other settings, and values
from the environment.
-/

namespace Arborist.Settings

def isCopyable : Value → Bool
  | .list _ | .map _ => true
  | _ => false

def Part.hasFields : Part α → Bool
  | .fields _ => true
  | .other _ => false

def hasFields (settings : Settings) (part : String) : Bool :=
  match part with
  | "cache" => Part.hasFields settings.cache
  | "security" => Part.hasFields settings.security
  | "language" => Part.hasFields settings.language
  | _ => false

def assignField (settings : Settings) (part field : String) (value : Value) : Settings :=
  match part, field with
  | "cache", "enabled" =>
    { settings with cache := settings.cache.change fun fields => { fields with enabled := value } }
  | "cache", "max_size_mb" =>
    { settings with cache := settings.cache.change fun fields => { fields with maxSizeMb := value } }
  | "cache", "ttl_seconds" =>
    { settings with cache := settings.cache.change fun fields => { fields with ttlSeconds := value } }
  | "security", "max_file_size_mb" =>
    { settings with
      security := settings.security.change fun fields => { fields with maxFileSizeMb := value } }
  | "security", "excluded_dirs" =>
    { settings with
      security := settings.security.change fun fields => { fields with excludedDirs := value } }
  | "security", "allowed_extensions" =>
    { settings with
      security := settings.security.change fun fields => { fields with allowedExtensions := value } }
  | "language", "auto_install" =>
    { settings with
      language := settings.language.change fun fields => { fields with autoInstall := value } }
  | "language", "default_max_depth" =>
    { settings with
      language := settings.language.change fun fields => { fields with defaultMaxDepth := value } }
  | "language", "preferred_languages" =>
    { settings with
      language := settings.language.change fun fields => { fields with preferredLanguages := value } }
  | _, _ => settings

def assignTop (settings : Settings) (name : String) (value : Value) : Settings :=
  match name with
  | "cache" => { settings with cache := .other value }
  | "security" => { settings with security := .other value }
  | "language" => { settings with language := .other value }
  | "log_level" => { settings with logLevel := value }
  | "max_results_default" => { settings with maxResultsDefault := value }
  | _ => settings

/-- Sets a value by its dotted name; unknown names change nothing. -/
def assign (settings : Settings) (path : String) (value : Value) : Settings :=
  match Text.pieces "." path with
  | [part, field] => settings.assignField part field value
  | _ => settings.assignTop path value

def adoptBasics (settings other : Settings) : Settings :=
  match other.maxSizeMb, other.maxFileSizeMb, other.defaultMaxDepth with
  | .ok size, .ok fileSize, .ok depth =>
    ((settings.assignField "cache" "max_size_mb" size).assignField
      "security" "max_file_size_mb" fileSize).assignField "language" "default_max_depth" depth
  | .ok size, .ok fileSize, .error _ =>
    (settings.assignField "cache" "max_size_mb" size).assignField
      "security" "max_file_size_mb" fileSize
  | .ok size, .error _, _ => settings.assignField "cache" "max_size_mb" size
  | .error _, _, _ => settings

/-- The steps in which values are taken over.  A list that cannot be copied, and a section that is
none, stop them. -/
def adoptSteps (other : Settings) : List (Settings → Option Settings) :=
  let take (part field : String) (value : Except Fault Value) (settings : Settings) : Option Settings :=
    match value with
    | .ok value =>
      if settings.hasFields part then some (settings.assignField part field value) else none
    | .error _ => none
  let copy (part field : String) (value : Except Fault Value) (settings : Settings) : Option Settings :=
    match value with
    | .ok value => if isCopyable value then take part field (.ok value) settings else none
    | .error _ => none
  let copyUnlessVoid (settings : Settings) : Option Settings :=
    match other.allowedExtensions with
    | .ok value =>
      if value.isVoid then take "security" "allowed_extensions" (.ok .null) settings
      else copy "security" "allowed_extensions" (.ok value) settings
    | .error _ => none
  [take "cache" "enabled" other.cacheEnabled,
    take "cache" "max_size_mb" other.maxSizeMb,
    take "cache" "ttl_seconds" other.ttlSeconds,
    take "security" "max_file_size_mb" other.maxFileSizeMb,
    copy "security" "excluded_dirs" other.excludedDirs,
    copyUnlessVoid,
    take "language" "auto_install" other.autoInstall,
    take "language" "default_max_depth" other.defaultMaxDepth,
    copy "language" "preferred_languages" other.preferredLanguages,
    fun settings => some { settings with logLevel := other.logLevel },
    fun settings => some { settings with maxResultsDefault := other.maxResultsDefault }]

def runSteps : List (Settings → Option Settings) → Settings → Settings × Bool
  | [], settings => (settings, true)
  | step :: rest, settings =>
    match step settings with
    | some next => runSteps rest next
    | none => (settings, false)

/-- Takes over all values of other settings, or as many as can be and then the basic ones. -/
def adopt (settings other : Settings) : Except Fault Settings := do
  let _ ← settings.maxSizeMb
  let _ ← settings.maxFileSizeMb
  let _ ← other.maxSizeMb
  let _ ← other.maxFileSizeMb
  let (updated, complete) := runSteps (adoptSteps other) settings
  return if complete then updated else updated.adoptBasics other

abbrev Environment := List (String × String)

def valueOf? (environment : Environment) (name : String) : Option String :=
  match environment.lookup name with
  | some "" => none
  | other => other

def isTrueWord (text : String) : Value := .bool (Text.lowerString text == "true")

def integerOf (text : String) : Except Fault Value :=
  match Text.integer? text with
  | some value => .ok (.int value)
  | none => .error (.badInteger text)

def environmentFields : List (String × String × String × (String → Except Fault Value)) :=
  [("MCP_TS_CACHE_ENABLED", "cache", "enabled", fun text => .ok (isTrueWord text)),
    ("MCP_TS_CACHE_MAX_SIZE_MB", "cache", "max_size_mb", integerOf),
    ("MCP_TS_CACHE_TTL_SECONDS", "cache", "ttl_seconds", integerOf),
    ("MCP_TS_SECURITY_MAX_FILE_SIZE_MB", "security", "max_file_size_mb", integerOf),
    ("MCP_TS_LANGUAGE_AUTO_INSTALL", "language", "auto_install", fun text => .ok (isTrueWord text)),
    ("MCP_TS_LANGUAGE_DEFAULT_MAX_DEPTH", "language", "default_max_depth", integerOf)]

def ofEnvironment (environment : Environment) : Except Fault Settings := do
  let settings ← environmentFields.foldlM
    (fun (settings : Settings) (name, part, field, read) =>
      match valueOf? environment name with
      | some text => do return settings.assignField part field (← read text)
      | none => return settings)
    {}
  match valueOf? environment "MCP_TS_LOG_LEVEL" with
  | some text => return { settings with logLevel := .string text }
  | none => return settings

end Arborist.Settings
