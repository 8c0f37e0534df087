import Mathlib
import Arborist.Proofs.Cache.Limits
import Arborist.Proofs.Service.ActionRun
import Arborist.Proofs.Settings.Loading
import Arborist.Service.Configure

/-!
Changing the settings while the service runs.  A call makes all the changes that are asked for before it
finds out that the loggers refuse the level, and the fault that it then gives takes nothing back.
-/

namespace Arborist.Action

variable {service after : Service}

theorem run_bind_of_ok {action : Action α} {value : α} (done : Action.run action service = (.ok value, after))
    (next : α → Action β) :
    Action.run (action >>= next) service = Action.run (next value) after := by
  rw [run_bind, done]

theorem run_bind_of_error {action : Action α} {fault : Fault}
    (failed : Action.run action service = (.error fault, after)) (next : α → Action β) :
    Action.run (action >>= next) service = (.error fault, after) := by
  rw [run_bind, failed]

theorem run_ite {more rest : Action α} (leads : Action.run more service = Action.run rest after) (condition : Prop)
    [Decidable condition] :
    Action.run (if condition then more else rest) service =
      Action.run rest (if condition then after else service) := by
  split
  · exact leads
  · rfl

theorem run_ite_bind {action : Action Unit} (done : Action.run action service = (.ok (), after)) (condition : Prop)
    [Decidable condition] (next : Unit → Action α) :
    Action.run (if condition then action >>= next else next ()) service =
      Action.run (next ()) (if condition then after else service) :=
  run_ite (run_bind_of_ok done next) condition

end Arborist.Action

namespace Arborist.Service

/-- What the loggers make of a level. -/
def levelVerdict : Value → Except Fault Unit
  | .string name =>
    match LevelMeaning.ofName name with
    | .thing shown => .error (.badLevel shown)
    | .words text => .error (.unknownLevel text)
    | _ => .ok ()
  | _ => .error .levelNameKind

def levelled (service : Service) : Value → Service
  | .string name =>
    match LevelMeaning.ofName name with
    | .level value =>
      if value != 0 then { service with logging := { service.logging with level := value } } else service
    | _ => service
  | _ => service

theorem run_applyLevel (name : Value) (service : Service) :
    Action.run (applyLevel name) service = (levelVerdict name, service.levelled name) := by
  unfold applyLevel levelVerdict levelled
  cases name with
  | string name =>
      dsimp only
      cases LevelMeaning.ofName name with
      | level value =>
          dsimp only
          split <;> rfl
      | _ => rfl
  | _ => rfl

theorem exists_logging_levelled (service : Service) (name : Value) :
    ∃ logging, service.levelled name = { service with logging } := by
  unfold levelled
  split
  · split
    · split
      · exact ⟨_, rfl⟩
      · exact ⟨service.logging, rfl⟩
    · exact ⟨service.logging, rfl⟩
  · exact ⟨service.logging, rfl⟩

theorem run_assignSetting {path : String} (single : path ≠ "log_level") (value : Value) (service : Service) :
    Action.run (assignSetting path value) service =
      (.ok (), { service with settings := service.settings.assign path value }) := by
  rw [assignSetting, Action.run_bind, Action.run_modify]
  simp [single]

theorem run_assignSetting_level (level : Value) (service : Service) :
    Action.run (assignSetting "log_level" level) service = (levelVerdict level,
      { service with settings := { service.settings with logLevel := level } }.levelled level) := by
  have top : service.settings.assign "log_level" level = { service.settings with logLevel := level } := by
    have pieces : Text.pieces "." "log_level" = ["log_level"] := by decide
    rw [Settings.assign, pieces]
    rfl
  rw [assignSetting, Action.run_bind, Action.run_modify]
  simp [run_applyLevel, top]

end Arborist.Service

namespace Arborist

def TreeCache.following (cache : TreeCache) (settings : Settings) : TreeCache :=
  match settings.cache with
  | .fields fields =>
    { cache with enabled := fields.enabled, maxSizeMb := fields.maxSizeMb, ttlSeconds := fields.ttlSeconds }
  | .other _ => cache

theorem Part.exists_of_field {part : Part α} {name : String} {select : α → Value} {value : Value}
    (there : part.field name select = .ok value) : ∃ fields, part = .fields fields := by
  cases part with
  | fields fields => exact ⟨fields, rfl⟩
  | other given => cases there

theorem Settings.exists_cache_of_adopt {settings other after : Settings}
    (adopted : settings.adopt other = .ok after) : ∃ fields, after.cache = .fields fields := by
  have kept := Settings.parts_of_adopt adopted
  obtain ⟨size, had, -⟩ := Outcome.bind_eq_ok_iff.mp adopted
  have hasFields := Settings.Part.hasFields_eq_true_iff.mpr (Part.exists_of_field had)
  exact Settings.Part.hasFields_eq_true_iff.mp ((Prod.mk.inj kept).1.trans hasFields)

end Arborist

namespace Arborist.Service

variable {service : Service}

def withDocument (service : Service) (path : String) : Service :=
  match Settings.document? service.store (Path.ofString path).text with
  | none => service
  | some document =>
    match service.settings.adopt document with
    | .error _ => service
    | .ok settings =>
      { service with settings, cache := service.cache.following settings }.levelled settings.logLevel

theorem run_loadSettings (path : String) (service : Service) :
    Action.run (loadSettings path) service = (.ok (), service.withDocument path) := by
  unfold withDocument
  rw [loadSettings, Action.run_bind_of_ok (Action.run_get service)]
  generalize Settings.document? service.store (Path.ofString path).text = read
  cases read with
  | none => rfl
  | some document =>
      dsimp only
      cases adopted : service.settings.adopt document with
      | error fault => rfl
      | ok settings =>
          obtain ⟨fields, there⟩ := Settings.exists_cache_of_adopt adopted
          simp only [Settings.cacheEnabled, Settings.maxSizeMb, Settings.ttlSeconds, there, Part.field,
            Outcome.ok_bind, Outcome.pure_eq_ok, Action.run_bind, Action.run_modify, Action.run_attempt,
            run_applyLevel, Action.run_pure, TreeCache.following]

theorem run_loadAbsolute (document : Value) (service : Service) :
    Action.run (loadAbsolute document) service = (.ok (), service.withDocument
      ((Path.ofString document.text).absoluteFrom service.store.workingDirectory).text) := by
  rw [loadAbsolute, Action.run_bind, Action.run_get]
  exact run_loadSettings _ service

theorem parts_withDocument (service : Service) (path : String) :
    (service.withDocument path).settings.parts = service.settings.parts := by
  unfold withDocument
  generalize Settings.document? service.store (Path.ofString path).text = read
  split
  · rfl
  · split
    · rfl
    next settings adopted =>
      obtain ⟨logging, same⟩ := exists_logging_levelled
        { service with settings, cache := service.cache.following settings } settings.logLevel
      rw [same]
      exact Settings.parts_of_adopt adopted

theorem settings_withDocument (sectioned : service.settings.Sectioned) (path : String) :
    (service.withDocument path).settings =
      ((Settings.document? service.store (Path.ofString path).text).map Settings.taken).getD
        service.settings := by
  unfold withDocument
  cases read : Settings.document? service.store (Path.ofString path).text with
  | none => rfl
  | some document =>
      dsimp only
      rw [Settings.adopt_eq_taken sectioned (Settings.regular_of_document? read)]
      obtain ⟨logging, same⟩ := exists_logging_levelled
        { service with settings := document.taken, cache := service.cache.following document.taken }
        document.taken.logLevel
      exact congrArg Service.settings same

def switched (service : Service) (enabled : Value) : Service :=
  { service with
    settings := service.settings.assignField "cache" "enabled" enabled
    cache := { service.cache with enabled } }

def withFileSize (service : Service) (size : Value) : Service :=
  { service with settings := service.settings.assignField "security" "max_file_size_mb" size }

theorem run_assignCacheEnabled (enabled : Value) (service : Service) :
    Action.run (assignCacheEnabled enabled) service = (.ok (), service.switched enabled) := by
  have pieces : Text.pieces "." "cache.enabled" = ["cache", "enabled"] := by decide
  rw [assignCacheEnabled, Action.run_bind, run_assignSetting (by decide), Settings.assign, pieces]
  rfl

theorem run_assignFileSize (size : Value) (service : Service) :
    Action.run (assignSetting "security.max_file_size_mb" size) service =
      (.ok (), service.withFileSize size) := by
  have pieces : Text.pieces "." "security.max_file_size_mb" = ["security", "max_file_size_mb"] := by decide
  rw [run_assignSetting (by decide), Settings.assign, pieces]
  rfl

theorem summary_eq_ok {settings : Settings} {cache : CacheSettings} {security : SecuritySettings}
    {language : LanguageSettings} (onCache : settings.cache = .fields cache)
    (onSecurity : settings.security = .fields security) (onLanguage : settings.language = .fields language) :
    settings.summary = .ok (.object [
      ("cache", .object [("enabled", cache.enabled), ("max_size_mb", cache.maxSizeMb),
        ("ttl_seconds", cache.ttlSeconds)]),
      ("security", .object [("max_file_size_mb", security.maxFileSizeMb),
        ("excluded_dirs", security.excludedDirs)]),
      ("language", .object [("auto_install", language.autoInstall),
        ("default_max_depth", language.defaultMaxDepth)]),
      ("log_level", settings.logLevel)]) := by
  simp [Settings.summary, Settings.cacheEnabled, Settings.maxSizeMb, Settings.ttlSeconds,
    Settings.maxFileSizeMb, Settings.excludedDirs, Settings.autoInstall, Settings.defaultMaxDepth,
    Part.field, onCache, onSecurity, onLanguage]

theorem summary_eq_ok_iff {settings : Settings} :
    (∃ told, settings.summary = .ok told) ↔ settings.Sectioned := by
  constructor
  · rintro ⟨told, done⟩
    obtain ⟨enabled, onCache, done⟩ := Outcome.bind_eq_ok_iff.mp done
    obtain ⟨_, -, done⟩ := Outcome.bind_eq_ok_iff.mp done
    obtain ⟨_, -, done⟩ := Outcome.bind_eq_ok_iff.mp done
    obtain ⟨fileSize, onSecurity, done⟩ := Outcome.bind_eq_ok_iff.mp done
    obtain ⟨_, -, done⟩ := Outcome.bind_eq_ok_iff.mp done
    obtain ⟨install, onLanguage, -⟩ := Outcome.bind_eq_ok_iff.mp done
    exact ⟨Part.exists_of_field onCache, Part.exists_of_field onSecurity, Part.exists_of_field onLanguage⟩
  · rintro ⟨⟨cache, onCache⟩, ⟨security, onSecurity⟩, language, onLanguage⟩
    exact ⟨_, summary_eq_ok onCache onSecurity onLanguage⟩

theorem run_checkSizes (service : Service) : ∃ result, Action.run checkSizes service = (result, service) ∧
    ((∃ value, result = .ok value) ↔ service.settings.Sectioned) := by
  refine ⟨do
    let _ ← service.settings.maxSizeMb
    let _ ← service.settings.maxFileSizeMb
    let _ ← service.settings.defaultMaxDepth, ?_, ?_⟩
  · rw [checkSizes, Action.run_bind_of_ok (Action.run_get service)]
    simp only [Action.run_bind, Action.run_lift]
    cases service.settings.maxSizeMb <;> cases service.settings.maxFileSizeMb <;>
      cases service.settings.defaultMaxDepth <;> rfl
  · constructor
    · rintro ⟨_, done⟩
      obtain ⟨size, onCache, done⟩ := Outcome.bind_eq_ok_iff.mp done
      obtain ⟨fileSize, onSecurity, done⟩ := Outcome.bind_eq_ok_iff.mp done
      obtain ⟨depth, onLanguage, -⟩ := Outcome.bind_eq_ok_iff.mp done
      exact ⟨Part.exists_of_field onCache, Part.exists_of_field onSecurity, Part.exists_of_field onLanguage⟩
    · rintro ⟨⟨cache, onCache⟩, ⟨security, onSecurity⟩, language, onLanguage⟩
      simp [Settings.maxSizeMb, Settings.maxFileSizeMb, Settings.defaultMaxDepth, Part.field, onCache,
        onSecurity, onLanguage]

theorem run_checkSizes_of_sectioned (sectioned : service.settings.Sectioned) :
    Action.run checkSizes service = (.ok (), service) := by
  obtain ⟨result, same, succeeds⟩ := run_checkSizes service
  obtain ⟨⟨⟩, rfl⟩ := succeeds.mpr sectioned
  exact same

theorem run_checkSizes_of_not_sectioned (broken : ¬ service.settings.Sectioned) :
    ∃ fault, Action.run checkSizes service = (.error fault, service) := by
  obtain ⟨result, same, succeeds⟩ := run_checkSizes service
  cases result with
  | ok value => exact absurd (succeeds.mp ⟨value, rfl⟩) broken
  | error fault => exact ⟨fault, same⟩

def Reports (action : Action α) : Prop :=
  ∀ service, ∃ result logging, Action.run action service = (result, { service with logging }) ∧
    ((∃ told, result = .ok told) ↔ service.settings.Sectioned)

theorem reports_summary : Reports (do Action.lift (← get).settings.summary) := by
  intro service
  exact ⟨service.settings.summary, service.logging, rfl, summary_eq_ok_iff⟩

theorem Reports.after_modify {action : Action α} (reports : Reports action)
    (change : Service → LogState) :
    Reports (do modify fun service => { service with logging := change service }; action) := by
  intro service
  obtain ⟨result, logging, same, succeeds⟩ := reports { service with logging := change service }
  refine ⟨result, logging, ?_, succeeds⟩
  rw [Action.run_bind_of_ok (Action.run_modify service _), same]

theorem reports_server : Reports (do
    checkSizes
    let settings := (← get).settings
    return (← Action.lift settings.summary, settings)) := by
  intro service
  by_cases sectioned : service.settings.Sectioned
  · obtain ⟨told, sums⟩ := summary_eq_ok_iff.mpr sectioned
    refine ⟨.ok (told, service.settings), service.logging, ?_, by simp [sectioned]⟩
    rw [Action.run_bind_of_ok (run_checkSizes_of_sectioned sectioned)]
    simp [Action.run_bind, sums, Except.map]
  · obtain ⟨fault, fails⟩ := run_checkSizes_of_not_sectioned sectioned
    refine ⟨.error fault, service.logging, ?_, by simp [sectioned]⟩
    rw [Action.run_bind_of_error fails]

/-- What a caller asks for before the level. -/
def prepared (service : Service) (changes : Changes) (document : String) : Service :=
  let loaded := if !changes.document.isVoid then service.withDocument document else service
  let set := if isAsked changes.cacheEnabled then loaded.switched changes.cacheEnabled else loaded
  if isAsked changes.maxFileSizeMb then set.withFileSize changes.maxFileSizeMb else set

/-- The state with all that a caller asks for, whatever the loggers make of the level. -/
def asked (service : Service) (changes : Changes) (document : String) : Service :=
  let prepared := service.prepared changes document
  if isAsked changes.logLevel then
    { prepared with settings := { prepared.settings with logLevel := changes.logLevel } }
  else prepared

theorem parts_prepared (service : Service) (changes : Changes) (document : String) :
    (service.prepared changes document).settings.parts = service.settings.parts := by
  have loaded := parts_withDocument service document
  unfold prepared switched withFileSize
  grind [Settings.parts_assignField]

def Changes.LevelRefused (changes : Changes) : Prop :=
  isAsked changes.logLevel = true ∧ ∃ fault, levelVerdict changes.logLevel = .error fault

theorem run_level {changes : Changes} {next : Unit → Action α} {report : Action α}
    (nextReports : Reports (next ())) (reports : Reports report) (service : Service) (document : String) :
    ∃ result logging, Action.run (if isAsked changes.logLevel = true then
        assignSetting "log_level" changes.logLevel >>= next else report) (service.prepared changes document) =
      (result, { service.asked changes document with logging }) ∧
    ((∃ told, result = .ok told) ↔ service.settings.Sectioned ∧ ¬ changes.LevelRefused) := by
  have same := parts_prepared service changes document
  unfold asked Changes.LevelRefused
  generalize service.prepared changes document = prepared at same ⊢
  have sectioned : prepared.settings.Sectioned ↔ service.settings.Sectioned := by
    rw [Settings.sectioned_iff_parts, Settings.sectioned_iff_parts, same]
  cases given : isAsked changes.logLevel with
  | false =>
      obtain ⟨result, logging, ran, succeeds⟩ := reports prepared
      exact ⟨result, logging, by simpa using ran, by simpa [sectioned] using succeeds⟩
  | true =>
      have stored := run_assignSetting_level changes.logLevel prepared
      obtain ⟨logging, levelled⟩ := exists_logging_levelled
        { prepared with settings := { prepared.settings with logLevel := changes.logLevel } } changes.logLevel
      rw [levelled] at stored
      -- the level is stored by now, whatever the verdict
      cases verdict : levelVerdict changes.logLevel with
      | error fault =>
          rw [verdict] at stored
          exact ⟨.error fault, logging, by simpa using Action.run_bind_of_error stored next, by simp⟩
      | ok value =>
          rw [verdict] at stored
          obtain ⟨result, logging, ran, succeeds⟩ := nextReports
            { prepared with settings := { prepared.settings with logLevel := changes.logLevel }, logging }
          refine ⟨result, logging, ?_, ?_⟩
          · simpa using (Action.run_bind_of_ok stored next).trans ran
          · rw [succeeds, ← sectioned, Settings.sectioned_iff_parts, Settings.sectioned_iff_parts]
            simp [Settings.parts]

inductive Configurer where
  | context
  | tool
  | server
deriving DecidableEq

namespace Configurer

def action (configurer : Configurer) (changes : Changes) : Action Unit :=
  match configurer with
  | .context => (fun _ => ()) <$> configure changes
  | .tool => (fun _ => ()) <$> configureTool changes
  | .server => (fun _ => ()) <$> configureServer changes

def document (configurer : Configurer) (changes : Changes) (service : Service) : String :=
  match configurer with
  | .context => changes.document.text
  | .tool | .server =>
    ((Path.ofString changes.document.text).absoluteFrom service.store.workingDirectory).text

/-- Whether the sizes must be there before anything is changed. -/
def ChecksFirst (configurer : Configurer) : Prop := configurer ≠ .context

end Configurer

def Makes (action : Action α) (changes : Changes) (document : String) (service : Service) : Prop :=
  ∃ result logging, Action.run action service = (result, { service.asked changes document with logging }) ∧
    ((∃ told, result = .ok told) ↔ service.settings.Sectioned ∧ ¬ changes.LevelRefused)

theorem makes_configure (changes : Changes) (service : Service) :
    Makes (configure changes) changes changes.document.text service := by
  unfold Makes configure
  rw [Action.run_ite_bind (run_loadSettings _ service), Action.run_ite_bind (run_assignCacheEnabled _ _),
    Action.run_ite_bind (run_assignFileSize _ _)]
  refine run_level ?_ reports_summary service _
  -- What is not a text has been refused before.
  split
  · split
    · exact reports_summary.after_modify _
    · exact reports_summary
  · exact reports_summary

theorem makes_configureTool (changes : Changes) (sectioned : service.settings.Sectioned) :
    Makes (configureTool changes) changes (Configurer.tool.document changes service) service := by
  unfold Makes configureTool
  rw [Action.run_bind_of_ok (run_checkSizes_of_sectioned sectioned),
    Action.run_ite_bind (run_loadAbsolute _ service), Action.run_ite_bind (run_assignCacheEnabled _ _),
    Action.run_ite_bind (run_assignFileSize _ _)]
  exact run_level reports_summary reports_summary service _

theorem makes_configureServer (changes : Changes) (sectioned : service.settings.Sectioned) :
    Makes (configureServer changes) changes (Configurer.server.document changes service) service := by
  have loads (next : Unit → Action (Value × Settings)) :
      Action.run (loadAbsolute changes.document >>= fun _ => checkSizes >>= next) service =
        Action.run (next ()) (service.withDocument (Configurer.server.document changes service)) := by
    have loaded : (service.withDocument (Configurer.server.document changes service)).settings.Sectioned := by
      rw [Settings.sectioned_iff_parts, parts_withDocument]
      exact Settings.sectioned_iff_parts.mp sectioned
    rw [Action.run_bind_of_ok (run_loadAbsolute changes.document service)]
    exact Action.run_bind_of_ok (run_checkSizes_of_sectioned loaded) _
  unfold Makes configureServer
  rw [Action.run_bind_of_ok (run_checkSizes_of_sectioned sectioned)]
  dsimp only
  -- the sizes are looked at again after a document, and are still there
  rw [Action.run_ite (loads _), Action.run_ite_bind (run_assignCacheEnabled _ _),
    Action.run_ite_bind (run_assignFileSize _ _)]
  refine run_level ?_ reports_server service _
  split
  · exact reports_server.after_modify _
  · exact reports_server

/-- The settings, and the switch and the limits of the cache, are as they were. -/
structure Unchanged (before after : Service) : Prop where
  settings : after.settings = before.settings
  cache : TreeCache.SameLimits before.cache after.cache

theorem Makes.map {action : Action α} {changes : Changes} {document : String}
    (makes : Makes action changes document service) (change : α → β) :
    Makes (change <$> action) changes document service := by
  obtain ⟨result, logging, ran, succeeds⟩ := makes
  refine ⟨result.map change, logging, by simp [ran], ?_⟩
  rw [← succeeds]
  cases result <;> simp [Except.map]

theorem Configurer.makes_action (configurer : Configurer) (changes : Changes)
    (ready : configurer.ChecksFirst → service.settings.Sectioned) :
    Makes (configurer.action changes) changes (configurer.document changes service) service := by
  cases configurer with
  | context => exact (makes_configure changes service).map _
  | tool => exact (makes_configureTool changes (ready (by simp [ChecksFirst]))).map _
  | server => exact (makes_configureServer changes (ready (by simp [ChecksFirst]))).map _

theorem Configurer.run_action_of_not_ready {configurer : Configurer} (checks : configurer.ChecksFirst)
    (changes : Changes) (broken : ¬ service.settings.Sectioned) :
    ∃ fault, Action.run (configurer.action changes) service = (.error fault, service) := by
  obtain ⟨fault, fails⟩ := run_checkSizes_of_not_sectioned broken
  refine ⟨fault, ?_⟩
  cases configurer with
  | context => exact absurd rfl checks
  | tool => simp [action, configureTool, Action.run_bind_of_error fails]
  | server => simp [action, configureServer, Action.run_bind_of_error fails]

theorem unchanged_with_logging_iff {before after : Service} {logging : LogState} :
    Unchanged before { after with logging } ↔ Unchanged before after :=
  ⟨fun same => ⟨same.settings, same.cache⟩, fun same => ⟨same.settings, same.cache⟩⟩

def offWithFunction : Changes := { cacheEnabled := .bool false, logLevel := .string "debug" }

end Arborist.Service
