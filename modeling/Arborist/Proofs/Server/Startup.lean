import Arborist.Proofs.Service.Configuring
import Arborist.Server.Startup

/-!
Starting the server.  Settings are loaded as a whole; a start with a document that is named takes all of
them over, a start without one takes over four values, and the server by itself takes over nothing.
-/

namespace Arborist.Server

inductive Entrance where
  | command (commandLine : CommandLine) (runEnd : RunEnd)
  | server

namespace Entrance

def action : Entrance → Action Unit
  | .command commandLine runEnd => (fun _ => ()) <$> start commandLine runEnd
  | .server => prepareCache

def document : Entrance → Option String
  | .command commandLine _ => commandLine.document
  | .server => none

end Entrance

/-- Settings that differ from the standard ones only in the four values that a start takes over. -/
structure StandardOtherwise (loaded : Settings) : Prop where
  ttlSeconds : loaded.ttlSeconds = ({} : Settings).ttlSeconds
  excludedDirs : loaded.excludedDirs = ({} : Settings).excludedDirs
  allowedExtensions : loaded.allowedExtensions = ({} : Settings).allowedExtensions
  autoInstall : loaded.autoInstall = ({} : Settings).autoInstall
  preferredLanguages : loaded.preferredLanguages = ({} : Settings).preferredLanguages
  logLevel : loaded.logLevel = ({} : Settings).logLevel
  maxResultsDefault : loaded.maxResultsDefault = ({} : Settings).maxResultsDefault

def basicsOf (cache : CacheSettings) (security : SecuritySettings) (language : LanguageSettings) : Settings :=
  { cache := .fields { enabled := cache.enabled, maxSizeMb := cache.maxSizeMb }
    security := .fields { maxFileSizeMb := security.maxFileSizeMb }
    language := .fields { defaultMaxDepth := language.defaultMaxDepth } }

theorem run_start (commandLine : CommandLine) (runEnd : RunEnd) (service : Service) :
    (Action.run (start commandLine runEnd) service).2 =
      (Action.run (applyStartSettings commandLine) service).2 := by
  rw [start, Action.run_bind_of_ok (Action.run_attempt service _)]
  cases (Action.run (applyStartSettings commandLine) service).1 <;> rfl

def Named (document : Option String) : Prop := ∃ path, document = some path ∧ path ≠ ""

theorem settings_of_named {commandLine : CommandLine} {service : Service} {loaded : Settings}
    (fresh : service.settings = {}) (named : Named commandLine.document)
    (done : Settings.load service.store service.environment commandLine.document = .ok loaded) :
    (Action.run (applyStartSettings commandLine) service).2.settings = loaded := by
  rw [applyStartSettings, Action.run_bind_of_ok (Action.run_get service),
    Action.run_bind_of_ok ((Action.run_lift service _).trans (congrArg (·, service) done))]
  obtain ⟨path, given, filled⟩ := named
  rw [given, Settings.load_of_named filled] at done
  rw [given]
  split
  next empty => exact absurd (Option.some.inj empty) filled
  next none => cases none
  next path _ same =>
    obtain rfl := Option.some.inj same
    rw [Service.run_loadSettings, Service.settings_withDocument, fresh]
    · exact Except.ok.inj done
    · exact fresh ▸ Settings.regular_standard.sectioned

theorem settings_of_not_named {commandLine : CommandLine} {service : Service} {loaded : Settings}
    (fresh : service.settings = {}) (unnamed : ¬ Named commandLine.document)
    (done : Settings.load service.store service.environment commandLine.document = .ok loaded)
    {cache : CacheSettings} {security : SecuritySettings} {language : LanguageSettings}
    (onCache : loaded.cache = .fields cache) (onSecurity : loaded.security = .fields security)
    (onLanguage : loaded.language = .fields language) :
    (Action.run (applyStartSettings commandLine) service).2.settings = basicsOf cache security language := by
  have single : Text.pieces "." "cache.enabled" = ["cache", "enabled"] ∧
      Text.pieces "." "cache.max_size_mb" = ["cache", "max_size_mb"] ∧
      Text.pieces "." "security.max_file_size_mb" = ["security", "max_file_size_mb"] ∧
      Text.pieces "." "language.default_max_depth" = ["language", "default_max_depth"] := by decide
  rw [applyStartSettings, Action.run_bind_of_ok (Action.run_get service),
    Action.run_bind_of_ok ((Action.run_lift service _).trans (congrArg (·, service) done))]
  split
  case h_3 path filled given => exact absurd ⟨path, given, filled⟩ unnamed
  all_goals
    simp [Action.run_bind, Service.run_assignSetting, Settings.cacheEnabled, Settings.maxSizeMb,
      Settings.maxFileSizeMb, Settings.defaultMaxDepth, Part.field, onCache, onSecurity, onLanguage,
      Settings.assign, single, fresh, Settings.assignField, Part.change, basicsOf]

theorem basicsOf_eq_iff {loaded : Settings} {cache : CacheSettings} {security : SecuritySettings}
    {language : LanguageSettings} (onCache : loaded.cache = .fields cache)
    (onSecurity : loaded.security = .fields security) (onLanguage : loaded.language = .fields language) :
    basicsOf cache security language = loaded ↔ StandardOtherwise loaded := by
  obtain ⟨_, _, _, level, results⟩ := loaded
  cases onCache
  cases onSecurity
  cases onLanguage
  cases cache
  cases security
  cases language
  constructor
  · intro same
    cases same
    exact ⟨rfl, rfl, rfl, rfl, rfl, rfl, rfl⟩
  · rintro ⟨ttl, excluded, allowed, install, preferred, rfl, rfl⟩
    cases ttl
    cases excluded
    cases allowed
    cases install
    cases preferred
    rfl

theorem settings_prepareCache (service : Service) :
    (Action.run prepareCache service).2.settings = service.settings := by
  rw [prepareCache, Action.run_bind_of_ok (Action.run_get service)]
  simp only [Action.run_bind, Action.run_lift, Action.run_modify]
  cases service.settings.maxSizeMb with
  | error fault => rfl
  | ok size => cases service.settings.cacheEnabled <;> rfl

/-- What has to be true of settings for a start to pass on all of them. -/
def Entrance.Carries (entrance : Entrance) (loaded : Settings) : Prop :=
  match entrance with
  | .command commandLine _ => Named commandLine.document ∨ StandardOtherwise loaded
  | .server => loaded = {}

/-- After a start the settings are those that were loaded only if a document is named on the command line,
or if none of the values that a start passes over differs from the standard one. -/
theorem settings_eq_loaded_iff (entrance : Entrance) {service : Service} {loaded : Settings}
    (fresh : service.settings = {})
    (done : Settings.load service.store service.environment entrance.document = .ok loaded) :
    (Action.run entrance.action service).2.settings = loaded ↔ entrance.Carries loaded := by
  cases entrance with
  | server =>
      rw [Entrance.action, settings_prepareCache, fresh]
      exact eq_comm
  | command commandLine runEnd =>
      rw [Entrance.action, Action.run_map, run_start]
      by_cases named : Named commandLine.document
      · exact iff_of_true (settings_of_named fresh named done) (.inl named)
      · have regular := Settings.regular_of_load done
        obtain ⟨⟨cache, onCache⟩, ⟨security, onSecurity, -⟩, language, onLanguage, -⟩ := regular
        rw [settings_of_not_named fresh named done onCache onSecurity onLanguage,
          basicsOf_eq_iff onCache onSecurity onLanguage]
        exact (or_iff_right named).symm

def shortLived : Service := { environment := [("MCP_TS_CACHE_TTL_SECONDS", "7")] }

theorem load_shortLived : Settings.load shortLived.store shortLived.environment none =
    .ok { cache := .fields { ttlSeconds := .int 7 } } := by
  have place : (Path.ofString "").join (Path.ofString ".config/tree-sitter/config.yaml") =
      ⟨.relative, [".config", "tree-sitter", "config.yaml"]⟩ := by decide
  have away : Settings.defaultPath? shortLived.store shortLived.environment = none := by
    simp [Settings.defaultPath?, shortLived, place, Store.fileExists, Store.entry?, Store.locate,
      Store.startOf, Store.followFrom, Store.hasNull, Store.find?, Folder.find?, Folder.get?]
  have unnamed : Settings.valueOf? shortLived.environment "MCP_TS_CONFIG_PATH" = none := by decide
  have read : Settings.ofEnvironment shortLived.environment =
    .ok { cache := .fields { ttlSeconds := .int 7 } } := by rfl
  rw [Settings.load]
  simp only [unnamed, away, read]
  exact Settings.adopt_eq_taken Settings.regular_standard.sectioned (Settings.regular_of_ofEnvironment read)

theorem shortLived_not_carried :
    shortLived.settings = {} ∧
    Settings.load shortLived.store shortLived.environment none =
      .ok { cache := .fields { ttlSeconds := .int 7 } } ∧
    (Action.run (Entrance.action (.command {} .normal)) shortLived).2.settings ≠
      { cache := .fields { ttlSeconds := .int 7 } } ∧
    (Action.run (Entrance.action .server) shortLived).2.settings ≠
      { cache := .fields { ttlSeconds := .int 7 } } := by
  refine ⟨rfl, load_shortLived, ?_, ?_⟩
  · intro same
    rcases (settings_eq_loaded_iff (.command {} .normal) rfl load_shortLived).mp same with
      ⟨path, given, -⟩ | standard
    · cases given
    · have ttl := standard.ttlSeconds
      cases ttl
  · intro same
    cases (settings_eq_loaded_iff .server rfl load_shortLived).mp same

end Arborist.Server
