import Arborist.Data.Compare

/-!
The settings.  A value that is set while the service runs is kept as it is given, so every field
holds plain data, and even a whole section can be overwritten by something else.
-/

namespace Arborist

structure CacheSettings where
  enabled : Value := .bool true
  maxSizeMb : Value := .int 100
  ttlSeconds : Value := .int 300
deriving Inhabited

structure SecuritySettings where
  maxFileSizeMb : Value := .int 5
  excludedDirs : Value := .strings [".git", "node_modules", "__pycache__"]
  allowedExtensions : Value := .null
deriving Inhabited

structure LanguageSettings where
  autoInstall : Value := .bool false
  defaultMaxDepth : Value := .int 5
  preferredLanguages : Value := .list []
deriving Inhabited

inductive Part (α : Type) where
  | fields (fields : α)
  | other (value : Value)
deriving Inhabited

def Part.field (part : Part α) (name : String) (select : α → Value) : Except Fault Value :=
  match part with
  | .fields content => .ok (select content)
  | .other value => .error (.noAttribute value.kindName name)

def Part.change (part : Part α) (update : α → α) : Part α :=
  match part with
  | .fields content => .fields (update content)
  | .other value => .other value

structure Settings where
  cache : Part CacheSettings := .fields {}
  security : Part SecuritySettings := .fields {}
  language : Part LanguageSettings := .fields {}
  logLevel : Value := .string "INFO"
  maxResultsDefault : Value := .int 100
deriving Inhabited

namespace Settings

def cacheEnabled (settings : Settings) : Except Fault Value :=
  settings.cache.field "enabled" CacheSettings.enabled

def maxSizeMb (settings : Settings) : Except Fault Value :=
  settings.cache.field "max_size_mb" CacheSettings.maxSizeMb

def ttlSeconds (settings : Settings) : Except Fault Value :=
  settings.cache.field "ttl_seconds" CacheSettings.ttlSeconds

def maxFileSizeMb (settings : Settings) : Except Fault Value :=
  settings.security.field "max_file_size_mb" SecuritySettings.maxFileSizeMb

def excludedDirs (settings : Settings) : Except Fault Value :=
  settings.security.field "excluded_dirs" SecuritySettings.excludedDirs

def allowedExtensions (settings : Settings) : Except Fault Value :=
  settings.security.field "allowed_extensions" SecuritySettings.allowedExtensions

def autoInstall (settings : Settings) : Except Fault Value :=
  settings.language.field "auto_install" LanguageSettings.autoInstall

def defaultMaxDepth (settings : Settings) : Except Fault Value :=
  settings.language.field "default_max_depth" LanguageSettings.defaultMaxDepth

def preferredLanguages (settings : Settings) : Except Fault Value :=
  settings.language.field "preferred_languages" LanguageSettings.preferredLanguages

def toValue (settings : Settings) : Value :=
  let cache := match settings.cache with
    | .fields fields => .object [("enabled", fields.enabled), ("max_size_mb", fields.maxSizeMb),
        ("ttl_seconds", fields.ttlSeconds)]
    | .other value => value
  let security := match settings.security with
    | .fields fields => .object [("max_file_size_mb", fields.maxFileSizeMb),
        ("excluded_dirs", fields.excludedDirs), ("allowed_extensions", fields.allowedExtensions)]
    | .other value => value
  let language := match settings.language with
    | .fields fields => .object [("auto_install", fields.autoInstall),
        ("default_max_depth", fields.defaultMaxDepth),
        ("preferred_languages", fields.preferredLanguages)]
    | .other value => value
  .object [("cache", cache), ("security", security), ("language", language),
    ("log_level", settings.logLevel), ("max_results_default", settings.maxResultsDefault)]

def summary (settings : Settings) : Except Fault Value := do
  let enabled ← settings.cacheEnabled
  let size ← settings.maxSizeMb
  let ttl ← settings.ttlSeconds
  let fileSize ← settings.maxFileSizeMb
  let excluded ← settings.excludedDirs
  let install ← settings.autoInstall
  let depth ← settings.defaultMaxDepth
  return .object [
    ("cache", .object [("enabled", enabled), ("max_size_mb", size), ("ttl_seconds", ttl)]),
    ("security", .object [("max_file_size_mb", fileSize), ("excluded_dirs", excluded)]),
    ("language", .object [("auto_install", install), ("default_max_depth", depth)]),
    ("log_level", settings.logLevel)]

end Settings

end Arborist
