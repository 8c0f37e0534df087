import Arborist.Proofs.Settings.Loading

/-!
What a settings document states, field by field: a field that is given has the value that its data converts
to, a field that is absent has its standard value.
-/

namespace Arborist.Settings

inductive Field where
  | cacheEnabled
  | maxSizeMb
  | ttlSeconds
  | maxFileSizeMb
  | excludedDirs
  | allowedExtensions
  | autoInstall
  | defaultMaxDepth
  | preferredLanguages
  | logLevel
  | maxResultsDefault
deriving DecidableEq

namespace Field

def place : Field → Option String × String
  | .cacheEnabled => (some "cache", "enabled")
  | .maxSizeMb => (some "cache", "max_size_mb")
  | .ttlSeconds => (some "cache", "ttl_seconds")
  | .maxFileSizeMb => (some "security", "max_file_size_mb")
  | .excludedDirs => (some "security", "excluded_dirs")
  | .allowedExtensions => (some "security", "allowed_extensions")
  | .autoInstall => (some "language", "auto_install")
  | .defaultMaxDepth => (some "language", "default_max_depth")
  | .preferredLanguages => (some "language", "preferred_languages")
  | .logLevel => (none, "log_level")
  | .maxResultsDefault => (none, "max_results_default")

def value (settings : Settings) : Field → Except Fault Value
  | .cacheEnabled => settings.cacheEnabled
  | .maxSizeMb => settings.maxSizeMb
  | .ttlSeconds => settings.ttlSeconds
  | .maxFileSizeMb => settings.maxFileSizeMb
  | .excludedDirs => settings.excludedDirs
  | .allowedExtensions => settings.allowedExtensions
  | .autoInstall => settings.autoInstall
  | .defaultMaxDepth => settings.defaultMaxDepth
  | .preferredLanguages => settings.preferredLanguages
  | .logLevel => .ok settings.logLevel
  | .maxResultsDefault => .ok settings.maxResultsDefault

def convert : Field → Converter Value
  | .cacheEnabled | .autoInstall => toBool
  | .maxSizeMb | .ttlSeconds | .maxFileSizeMb | .defaultMaxDepth | .maxResultsDefault => toInt
  | .excludedDirs | .preferredLanguages => toTextList
  | .allowedExtensions => toOptionalTextList
  | .logLevel => toText

/-- The data that is given for a field, in its section or at the top. -/
def given? (field : Field) (entries : List (Value × Value)) : Option Value :=
  match field.place with
  | (none, name) => Value.getEntry? name entries
  | (some part, name) => ((Value.getEntry? part entries).bind entriesOf?).bind (Value.getEntry? name)

/-- The value is what the given data converts to; the standard one if none is given. -/
def Reads (field : Field) (entries : List (Value × Value)) (value : Value) : Prop :=
  match field.given? entries with
  | none => field.value {} = .ok value
  | some given => field.convert given = .done value

end Field

section Sections

variable {entries own : List (Value × Value)} {α : Type}

theorem Field.reads_of_fieldOf {field : Field} {name : String} {standard value : Value}
    (given : field.given? entries = Value.getEntry? name own) (usual : field.value {} = .ok standard)
    (done : fieldOf own name field.convert standard = .done value) : field.Reads entries value := by
  rw [Reads, given]
  rw [fieldOf] at done
  cases found : Value.getEntry? name own with
  | none =>
      rw [found] at done
      exact usual.trans (congrArg _ (Outcome.done.inj done))
  | some data =>
      rw [found] at done
      exact Outcome.within_eq_done_iff.mp done

theorem entries_of_sectionOf {convert : List (Value × Value) → Outcome α} {data : Value} {fields : α}
    (done : sectionOf convert data = .done fields) :
    ∃ own, entriesOf? data = some own ∧ convert own = .done fields := by
  rw [sectionOf.eq_def] at done
  split at done
  · cases done
  · split at done
    · cases done
    next own found =>
      split at done
      · exact ⟨own, found, done⟩
      · cases done

theorem entries_of_sectionField {name : String} {standard fields : α}
    {convert : List (Value × Value) → Outcome α}
    (done : sectionField entries name standard convert = .done fields)
    (empty : convert [] = .done standard) : ∃ own, convert own = .done fields ∧
    ∀ field, ((Value.getEntry? name entries).bind entriesOf?).bind (Value.getEntry? field) =
      Value.getEntry? field own := by
  rw [sectionField] at done
  cases given : Value.getEntry? name entries with
  | none =>
      rw [given] at done
      exact ⟨[], empty.trans done, fun _ => rfl⟩
  | some data =>
      rw [given] at done
      obtain ⟨own, found, converted⟩ := entries_of_sectionOf (Outcome.within_eq_done_iff.mp done)
      exact ⟨own, converted, fun _ => by rw [Option.bind_some, found, Option.bind_some]⟩

end Sections

theorem Field.reads_of_fromEntries {entries : List (Value × Value)} {settings : Settings}
    (done : fromEntries entries = .done settings) (field : Field) :
    ∃ value, field.value settings = .ok value ∧ field.Reads entries value := by
  obtain ⟨⟨cache, security, language, level, results⟩, parts, rfl⟩ := Outcome.map_eq_done_iff.mp done
  obtain ⟨onCache, others⟩ := Outcome.both_eq_done_iff.mp parts
  obtain ⟨onSecurity, others⟩ := Outcome.both_eq_done_iff.mp others
  obtain ⟨onLanguage, others⟩ := Outcome.both_eq_done_iff.mp others
  obtain ⟨onLevel, onResults⟩ := Outcome.both_eq_done_iff.mp others
  obtain ⟨cacheEntries, toCache, inCache⟩ := entries_of_sectionField onCache rfl
  obtain ⟨securityEntries, toSecurity, inSecurity⟩ := entries_of_sectionField onSecurity rfl
  obtain ⟨languageEntries, toLanguage, inLanguage⟩ := entries_of_sectionField onLanguage rfl
  obtain ⟨enabled, size, ttl⟩ := fields_of_toCache toCache
  obtain ⟨fileSize, excluded, allowed⟩ := fields_of_toSecurity toSecurity
  obtain ⟨install, depth, languages⟩ := fields_of_toLanguage toLanguage
  cases field with
  | cacheEnabled => exact ⟨cache.enabled, rfl, reads_of_fieldOf (inCache _) rfl enabled⟩
  | maxSizeMb => exact ⟨cache.maxSizeMb, rfl, reads_of_fieldOf (inCache _) rfl size⟩
  | ttlSeconds => exact ⟨cache.ttlSeconds, rfl, reads_of_fieldOf (inCache _) rfl ttl⟩
  | maxFileSizeMb => exact ⟨security.maxFileSizeMb, rfl, reads_of_fieldOf (inSecurity _) rfl fileSize⟩
  | excludedDirs => exact ⟨security.excludedDirs, rfl, reads_of_fieldOf (inSecurity _) rfl excluded⟩
  | allowedExtensions =>
      exact ⟨security.allowedExtensions, rfl, reads_of_fieldOf (inSecurity _) rfl allowed⟩
  | autoInstall => exact ⟨language.autoInstall, rfl, reads_of_fieldOf (inLanguage _) rfl install⟩
  | defaultMaxDepth => exact ⟨language.defaultMaxDepth, rfl, reads_of_fieldOf (inLanguage _) rfl depth⟩
  | preferredLanguages =>
      exact ⟨language.preferredLanguages, rfl, reads_of_fieldOf (inLanguage _) rfl languages⟩
  | logLevel => exact ⟨level, rfl, reads_of_fieldOf rfl rfl onLevel⟩
  | maxResultsDefault => exact ⟨results, rfl, reads_of_fieldOf rfl rfl onResults⟩

/-- The value that is kept of a field that a document states: a void list of extensions counts as none. -/
def Field.kept (field : Field) (value : Value) : Value :=
  if field = .allowedExtensions ∧ value.isVoid = true then .null else value

theorem Field.value_taken {settings : Settings} (sectioned : settings.Sectioned) (field : Field) :
    field.value settings.taken = (field.value settings).map field.kept := by
  obtain ⟨cache, security, language, level, results⟩ := settings
  obtain ⟨⟨cache, rfl⟩, ⟨security, rfl⟩, language, rfl⟩ := sectioned
  cases field with
  | maxFileSizeMb | excludedDirs | allowedExtensions =>
      cases void : security.allowedExtensions.isVoid <;>
        simp [value, kept, taken, Part.change, Settings.maxFileSizeMb, Settings.excludedDirs,
          Settings.allowedExtensions, Part.field, Except.map, void]
  | _ => rfl

def Follows (settings : Settings) (entries : List (Value × Value)) : Prop :=
  ∀ field : Field, ∃ value, field.Reads entries value ∧ field.value settings = .ok (field.kept value)

theorem follows_taken {entries : List (Value × Value)} {settings : Settings}
    (made : ofEntries entries = .ok settings) : settings.taken.Follows entries := by
  intro field
  obtain ⟨value, has, reads⟩ := field.reads_of_fromEntries (fromEntries_of_ofEntries made)
  refine ⟨value, reads, ?_⟩
  rw [field.value_taken (regular_of_ofEntries made).sectioned, has]
  rfl

end Arborist.Settings
