import Arborist.Proofs.Server.CacheSwitch
import Arborist.Proofs.Settings.Document

/-!
Taking over a settings document, at the start and while the service runs.  Both ways make the same of a
document.  While all sections of the settings are in place, a valid document replaces all that was set and
any other leaves it alone.  Where a section has been overwritten, a valid document is not taken over, or only
in part.
-/

namespace Arborist.Settings

theorem Follows.sectioned {settings : Settings} {entries : List (Value × Value)}
    (follows : settings.Follows entries) : settings.Sectioned := by
  obtain ⟨_, -, onCache⟩ := follows .cacheEnabled
  obtain ⟨_, -, onSecurity⟩ := follows .maxFileSizeMb
  obtain ⟨_, -, onLanguage⟩ := follows .autoInstall
  exact ⟨Part.exists_of_field onCache, Part.exists_of_field onSecurity, Part.exists_of_field onLanguage⟩

theorem exists_error_of_adopt {settings other : Settings}
    (missing : Part.hasFields settings.cache = false ∨ Part.hasFields settings.security = false) :
    ∃ fault, settings.adopt other = .error fault := by
  cases adopted : settings.adopt other with
  | error fault => exact ⟨fault, rfl⟩
  | ok after =>
      obtain ⟨_, onCache, adopted⟩ := Outcome.bind_eq_ok_iff.mp adopted
      obtain ⟨_, onSecurity, -⟩ := Outcome.bind_eq_ok_iff.mp adopted
      have hasCache := Part.hasFields_eq_true_iff.mpr (Part.exists_of_field onCache)
      have hasSecurity := Part.hasFields_eq_true_iff.mpr (Part.exists_of_field onSecurity)
      simp [hasCache, hasSecurity] at missing

def uptoLanguage (settings other : Settings) : Settings :=
  { settings with cache := other.cache, security := other.security }

theorem adopt_eq_uptoLanguage {settings other : Settings}
    (onCache : Part.hasFields settings.cache = true) (onSecurity : Part.hasFields settings.security = true)
    (onLanguage : Part.hasFields settings.language = false) (regular : other.Regular) :
    settings.adopt other = .ok (settings.uptoLanguage other.taken) := by
  obtain ⟨cache, security, language, level, results⟩ := settings
  obtain ⟨ownCache, rfl⟩ := Part.hasFields_eq_true_iff.mp onCache
  obtain ⟨ownSecurity, rfl⟩ := Part.hasFields_eq_true_iff.mp onSecurity
  cases language with
  | fields fields => cases onLanguage
  | other given =>
      obtain ⟨cache, security, language, level, results⟩ := other
      obtain ⟨⟨newCache, rfl⟩, ⟨newSecurity, rfl, excluded, allowed⟩, newLanguage, rfl, preferred⟩ := regular
      have copyable (filled : newSecurity.allowedExtensions.isVoid = false) :
          isCopyable newSecurity.allowedExtensions = true := allowed.resolve_left (by simp [filled])
      -- the seventh step finds no section, and the basic fields that are then set have been set before
      cases void : newSecurity.allowedExtensions.isVoid <;>
        simp [adopt, runSteps, adoptSteps, adoptBasics, cacheEnabled, maxSizeMb, ttlSeconds, maxFileSizeMb,
          excludedDirs, allowedExtensions, autoInstall, defaultMaxDepth, Part.field, hasFields,
          Part.hasFields, assignField, Part.change, taken, uptoLanguage, excluded, void, copyable]

end Arborist.Settings

namespace Arborist.Service

/-- A valid document with these entries can be read at a path. -/
def Offers (service : Service) (path : String) (entries : List (Value × Value)) : Prop :=
  Settings.States service.store (Path.ofString path).text entries ∧
    ∃ document, Settings.ofEntries entries = .ok document

/-- All that the settings say is what the entries say, and the cache has its switch and limits from there. -/
structure Replaced (before after : Service) (entries : List (Value × Value)) : Prop where
  settings : after.settings.Follows entries
  cache : after.cache = before.cache.following after.settings

/-- A valid document replaces everything, and without one nothing changes. -/
structure AllOrNothing (before after : Service) (path : String) : Prop where
  all : ∀ entries, before.Offers path entries → before.Replaced after entries
  nothing : (∀ entries, ¬ before.Offers path entries) → after = before

section Document

variable {service : Service} {path : String} {entries : List (Value × Value)}

theorem document_of_offers (offers : service.Offers path entries) : ∃ document,
    Settings.ofEntries entries = .ok document ∧
    Settings.document? service.store (Path.ofString path).text = some document := by
  obtain ⟨states, document, made⟩ := offers
  exact ⟨document, made, Settings.document?_eq_some_iff.mpr ⟨entries, states, made⟩⟩

theorem document?_eq_none (unoffered : ∀ entries, ¬ service.Offers path entries) :
    Settings.document? service.store (Path.ofString path).text = none := by
  cases read : Settings.document? service.store (Path.ofString path).text with
  | none => rfl
  | some document =>
      obtain ⟨entries, states, made⟩ := Settings.document?_eq_some_iff.mp read
      exact absurd ⟨states, document, made⟩ (unoffered entries)

theorem withDocument_of_none
    (read : Settings.document? service.store (Path.ofString path).text = none) :
    service.withDocument path = service := by
  unfold withDocument
  generalize Settings.document? service.store (Path.ofString path).text = found at read
  rw [read]

theorem withDocument_of_error {document : Settings} {fault : Fault}
    (read : Settings.document? service.store (Path.ofString path).text = some document)
    (refused : service.settings.adopt document = .error fault) : service.withDocument path = service := by
  unfold withDocument
  generalize Settings.document? service.store (Path.ofString path).text = found at read
  simp only [read, refused]

theorem withDocument_of_ok {document settings : Settings}
    (read : Settings.document? service.store (Path.ofString path).text = some document)
    (adopted : service.settings.adopt document = .ok settings) : ∃ logging,
    service.withDocument path =
      { service with settings, cache := service.cache.following settings, logging } := by
  unfold withDocument
  generalize Settings.document? service.store (Path.ofString path).text = found at read
  simp only [read, adopted]
  exact exists_logging_levelled _ _

theorem replaced_of_sectioned (sectioned : service.settings.Sectioned) (offers : service.Offers path entries) :
    service.Replaced (service.withDocument path) entries := by
  obtain ⟨document, made, read⟩ := document_of_offers offers
  have adopted := Settings.adopt_eq_taken sectioned (Settings.regular_of_ofEntries made)
  obtain ⟨logging, same⟩ := withDocument_of_ok read adopted
  rw [same]
  exact ⟨Settings.follows_taken made, rfl⟩

/-- Sections that are missing stay missing, so that the settings cannot say what a document says. -/
theorem sectioned_of_replaced (replaced : service.Replaced (service.withDocument path) entries) :
    service.settings.Sectioned := by
  have sectioned := replaced.settings.sectioned
  rw [Settings.sectioned_iff_parts, parts_withDocument] at sectioned
  exact Settings.sectioned_iff_parts.mpr sectioned

theorem allOrNothing_withDocument_iff :
    service.AllOrNothing (service.withDocument path) path ↔
      service.settings.Sectioned ∨ ∀ entries, ¬ service.Offers path entries := by
  constructor
  · intro either
    by_cases offered : ∃ entries, service.Offers path entries
    · obtain ⟨entries, offers⟩ := offered
      exact .inl (sectioned_of_replaced (either.all entries offers))
    · exact .inr (not_exists.mp offered)
  · intro known
    refine ⟨fun entries offers => ?_, fun unoffered => withDocument_of_none (document?_eq_none unoffered)⟩
    exact replaced_of_sectioned (known.resolve_right fun unoffered => unoffered entries offers) offers

theorem withDocument_of_missing
    (missing : Settings.Part.hasFields service.settings.cache = false ∨
      Settings.Part.hasFields service.settings.security = false) : service.withDocument path = service := by
  cases read : Settings.document? service.store (Path.ofString path).text with
  | none => exact withDocument_of_none read
  | some document =>
      obtain ⟨fault, refused⟩ := Settings.exists_error_of_adopt missing
      exact withDocument_of_error read refused

theorem withDocument_of_language (onCache : Settings.Part.hasFields service.settings.cache = true)
    (onSecurity : Settings.Part.hasFields service.settings.security = true)
    (onLanguage : Settings.Part.hasFields service.settings.language = false) {document : Settings}
    (read : Settings.document? service.store (Path.ofString path).text = some document) : ∃ logging,
    service.withDocument path =
      { service with
        settings := service.settings.uptoLanguage document.taken
        cache := service.cache.following document.taken
        logging } := by
  have regular := Settings.regular_of_document? read
  have adopted := Settings.adopt_eq_uptoLanguage onCache onSecurity onLanguage regular
  exact withDocument_of_ok read adopted

end Document

/-- What is loaded at the start from a document that is named is what a service with standard settings has
after it has taken over the document. -/
theorem load_eq_settings_of_loadSettings {service : Service} (fresh : service.settings = {})
    (environment : Settings.Environment) {path : String} (named : path ≠ "") : ∃ after,
    Action.run (loadSettings path) service = (.ok (), after) ∧
    Settings.load service.store environment (some path) = .ok after.settings ∧
    (∀ entries, service.Offers path entries → after.settings.Follows entries) ∧
    ((∀ entries, ¬ service.Offers path entries) → after.settings = {}) := by
  have sectioned : service.settings.Sectioned := fresh ▸ Settings.regular_standard.sectioned
  refine ⟨_, run_loadSettings path service, ?_, ?_, ?_⟩
  · rw [Settings.load_of_named named, settings_withDocument sectioned, fresh]
  · intro entries offers
    exact (replaced_of_sectioned sectioned offers).settings
  · intro unoffered
    rw [withDocument_of_none (document?_eq_none unoffered), fresh]

def lasting : String := "cache:\n  ttl_seconds: 7\nlog_level: DEBUG\n"

def lastingEntries : List (Value × Value) :=
  [(.string "cache", .map [(.string "ttl_seconds", .int 7)]), (.string "log_level", .string "DEBUG")]

def lastingSettings : Settings := { cache := .fields { ttlSeconds := .int 7 }, logLevel := .string "DEBUG" }

def isLasting : Option Value → Bool
  | some (.map [(.string "cache", .map [(.string "ttl_seconds", .int 7)]),
      (.string "log_level", .string "DEBUG")]) => true
  | _ => false

theorem load?_lasting : Yaml.load? lasting = some (.map lastingEntries) := by
  have read : isLasting (Yaml.load? lasting) = true := by decide +kernel
  rw [isLasting.eq_def] at read
  split at read
  next same => exact same
  next => cases read

theorem ofEntries_lasting : Settings.ofEntries lastingEntries = .ok lastingSettings := by rfl

theorem offers_lasting (service : Service) (same : service.store = (Server.withFile lasting).store) :
    service.Offers "/c.yaml" lastingEntries := by
  refine ⟨?_, lastingSettings, ofEntries_lasting⟩
  rw [same]
  exact ⟨lasting, Server.readText_withFile (by decide +kernel), by decide +kernel, load?_lasting⟩

theorem lasting_loaded_alike :
    (Server.withFile lasting).settings = {} ∧ "/c.yaml" ≠ "" ∧
    (Server.withFile lasting).Offers "/c.yaml" lastingEntries ∧ ∃ after,
      Action.run (loadSettings "/c.yaml") (Server.withFile lasting) = (.ok (), after) ∧
      Settings.load (Server.withFile lasting).store [] (some "/c.yaml") = .ok after.settings ∧
      after.settings.ttlSeconds = .ok (.int 7) := by
  have offers := offers_lasting (Server.withFile lasting) rfl
  obtain ⟨after, ran, loaded, follows, -⟩ :=
    load_eq_settings_of_loadSettings (rfl : (Server.withFile lasting).settings = {}) []
      (by decide : "/c.yaml" ≠ "")
  refine ⟨rfl, by decide, offers, after, ran, loaded, ?_⟩
  obtain ⟨value, reads, has⟩ := follows _ offers .ttlSeconds
  obtain rfl : Value.int 7 = value := Settings.Outcome.done.inj reads
  exact has

def overwritten : Service :=
  { Server.withFile lasting with settings := { language := .other .null } }

end Arborist.Service
