import Arborist.Proofs.Outcome
import Arborist.Settings.Update

/-!
Taking over settings.  Settings that come from a document or from the environment have all sections, and
lists where lists belong.  Such settings replace others as a whole, whatever these said.
-/

namespace Arborist.Settings

variable {settings : Settings}

structure Sectioned (settings : Settings) : Prop where
  cache : ∃ fields, settings.cache = .fields fields
  security : ∃ fields, settings.security = .fields fields
  language : ∃ fields, settings.language = .fields fields

structure RegularSecurity (fields : SecuritySettings) : Prop where
  excluded : isCopyable fields.excludedDirs = true
  allowed : fields.allowedExtensions.isVoid = true ∨ isCopyable fields.allowedExtensions = true

def RegularLanguage (fields : LanguageSettings) : Prop := isCopyable fields.preferredLanguages = true

/-- Settings that can be taken over as a whole: all sections are there, and lists can be copied. -/
structure Regular (settings : Settings) : Prop where
  cache : ∃ fields, settings.cache = .fields fields
  security : ∃ fields, settings.security = .fields fields ∧ RegularSecurity fields
  language : ∃ fields, settings.language = .fields fields ∧ RegularLanguage fields

theorem Regular.sectioned (regular : settings.Regular) : settings.Sectioned where
  cache := regular.cache
  security := regular.security.imp fun _ known => known.1
  language := regular.language.imp fun _ known => known.1

theorem regular_standard : Regular {} where
  cache := ⟨_, rfl⟩
  security := ⟨_, rfl, ⟨rfl, .inl rfl⟩⟩
  language := ⟨_, rfl, rfl⟩

/-- The same settings, where a void list of extensions counts as none. -/
def taken (settings : Settings) : Settings :=
  { settings with
    security := settings.security.change fun fields =>
      if fields.allowedExtensions.isVoid then { fields with allowedExtensions := .null } else fields }

theorem Regular.taken (regular : settings.Regular) : settings.taken.Regular := by
  obtain ⟨cache, ⟨fields, section', excluded, allowed⟩, language⟩ := regular
  refine ⟨cache, ⟨_, by simp only [Settings.taken, section', Part.change]; rfl, ?_⟩, language⟩
  cases void : fields.allowedExtensions.isVoid with
  | true => exact ⟨by simpa using excluded, .inl (by simp [Value.isVoid])⟩
  | false => exact ⟨by simpa using excluded, by simpa [void] using allowed⟩

theorem adopt_eq_taken {settings other : Settings} (sectioned : settings.Sectioned)
    (regular : other.Regular) : settings.adopt other = .ok other.taken := by
  obtain ⟨cache, security, language, level, results⟩ := settings
  obtain ⟨⟨ownCache, rfl⟩, ⟨ownSecurity, rfl⟩, ownLanguage, rfl⟩ := sectioned
  obtain ⟨cache, security, language, level, results⟩ := other
  obtain ⟨⟨newCache, rfl⟩, ⟨newSecurity, rfl, excluded, allowed⟩, newLanguage, rfl, preferred⟩ := regular
  rw [RegularLanguage] at preferred
  have copyable (filled : newSecurity.allowedExtensions.isVoid = false) :
      isCopyable newSecurity.allowedExtensions = true := allowed.resolve_left (by simp [filled])
  -- each step finds its section and can copy its list, so that none stops the others
  cases void : newSecurity.allowedExtensions.isVoid <;>
    simp [adopt, runSteps, adoptSteps, cacheEnabled, maxSizeMb, ttlSeconds, maxFileSizeMb, excludedDirs,
      allowedExtensions, autoInstall, defaultMaxDepth, preferredLanguages, Part.field, hasFields,
      Part.hasFields, assignField, Part.change, taken, excluded, preferred, void, copyable]

section FromData

variable {entries : List (Value × Value)} {settings : Settings} {name : String}

variable {α β : Type}

theorem Outcome.both_eq_done_iff {left : Outcome α} {right : Outcome β} {pair : α × β} :
    left.both right = .done pair ↔ left = .done pair.1 ∧ right = .done pair.2 := by
  cases left <;> cases right <;> simp [Outcome.both, Prod.ext_iff]

theorem Outcome.map_eq_done_iff {outcome : Outcome α} {change : α → β} {result : β} :
    outcome.map change = .done result ↔ ∃ value, outcome = .done value ∧ change value = result := by
  cases outcome <;> simp [Outcome.map]

theorem Outcome.within_eq_done_iff {outcome : Outcome α} {result : α} :
    outcome.within name = .done result ↔ outcome = .done result := by
  cases outcome <;> simp [Outcome.within]

theorem holds_of_fieldOf {convert : Converter Value} {standard value : Value} (holds : Value → Prop)
    (onStandard : holds standard) (onGiven : ∀ given value, convert given = .done value → holds value)
    (done : fieldOf entries name convert standard = .done value) : holds value := by
  rw [fieldOf] at done
  split at done
  · exact onGiven _ _ (Outcome.within_eq_done_iff.mp done)
  · exact Outcome.done.inj done ▸ onStandard

theorem holds_of_sectionField {standard fields : α} {convert : List (Value × Value) → Outcome α} (holds : α → Prop)
    (onStandard : holds standard) (onGiven : ∀ given fields, convert given = .done fields → holds fields)
    (done : sectionField entries name standard convert = .done fields) : holds fields := by
  rw [sectionField] at done
  split at done
  · have converted := Outcome.within_eq_done_iff.mp done
    rw [sectionOf.eq_def] at converted
    grind [problem]
  · exact Outcome.done.inj done ▸ onStandard

theorem isCopyable_of_toTextList (given value : Value) (done : toTextList given = .done value) :
    isCopyable value = true := by
  cases given with
  | list items =>
      obtain ⟨texts, -, rfl⟩ := Outcome.map_eq_done_iff.mp done
      rfl
  | _ => simp [toTextList, problem] at done

theorem isVoid_or_isCopyable_of_toOptionalTextList (given value : Value)
    (done : toOptionalTextList given = .done value) : value.isVoid = true ∨ isCopyable value = true := by
  rw [toOptionalTextList.eq_def] at done
  split at done
  · exact .inl (Outcome.done.inj done ▸ rfl)
  · exact .inr (isCopyable_of_toTextList _ _ done)

theorem fields_of_toCache {fields : CacheSettings} (done : toCache entries = .done fields) :
    fieldOf entries "enabled" toBool (.bool true) = .done fields.enabled ∧
    fieldOf entries "max_size_mb" toInt (.int 100) = .done fields.maxSizeMb ∧
    fieldOf entries "ttl_seconds" toInt (.int 300) = .done fields.ttlSeconds := by
  obtain ⟨⟨enabled, size, ttl⟩, parts, rfl⟩ := Outcome.map_eq_done_iff.mp done
  obtain ⟨onEnabled, numbers⟩ := Outcome.both_eq_done_iff.mp parts
  obtain ⟨onSize, onTtl⟩ := Outcome.both_eq_done_iff.mp numbers
  exact ⟨onEnabled, onSize, onTtl⟩

theorem fields_of_toSecurity {fields : SecuritySettings} (done : toSecurity entries = .done fields) :
    fieldOf entries "max_file_size_mb" toInt (.int 5) = .done fields.maxFileSizeMb ∧
    fieldOf entries "excluded_dirs" toTextList (.strings [".git", "node_modules", "__pycache__"]) =
      .done fields.excludedDirs ∧
    fieldOf entries "allowed_extensions" toOptionalTextList .null = .done fields.allowedExtensions := by
  obtain ⟨⟨size, excluded, allowed⟩, parts, rfl⟩ := Outcome.map_eq_done_iff.mp done
  obtain ⟨onSize, lists⟩ := Outcome.both_eq_done_iff.mp parts
  obtain ⟨onExcluded, onAllowed⟩ := Outcome.both_eq_done_iff.mp lists
  exact ⟨onSize, onExcluded, onAllowed⟩

theorem fields_of_toLanguage {fields : LanguageSettings} (done : toLanguage entries = .done fields) :
    fieldOf entries "auto_install" toBool (.bool false) = .done fields.autoInstall ∧
    fieldOf entries "default_max_depth" toInt (.int 5) = .done fields.defaultMaxDepth ∧
    fieldOf entries "preferred_languages" toTextList (.list []) = .done fields.preferredLanguages := by
  obtain ⟨⟨install, depth, languages⟩, parts, rfl⟩ := Outcome.map_eq_done_iff.mp done
  obtain ⟨onInstall, others⟩ := Outcome.both_eq_done_iff.mp parts
  obtain ⟨onDepth, onLanguages⟩ := Outcome.both_eq_done_iff.mp others
  exact ⟨onInstall, onDepth, onLanguages⟩

theorem regular_of_toSecurity (entries : List (Value × Value)) (fields : SecuritySettings)
    (done : toSecurity entries = .done fields) : RegularSecurity fields := by
  obtain ⟨-, onExcluded, onAllowed⟩ := fields_of_toSecurity done
  exact
    { excluded := holds_of_fieldOf (isCopyable · = true) rfl isCopyable_of_toTextList onExcluded
      allowed := holds_of_fieldOf (fun value => value.isVoid = true ∨ isCopyable value = true) (.inl rfl)
        isVoid_or_isCopyable_of_toOptionalTextList onAllowed }

theorem regular_of_toLanguage (entries : List (Value × Value)) (fields : LanguageSettings)
    (done : toLanguage entries = .done fields) : RegularLanguage fields := by
  obtain ⟨-, -, onLanguages⟩ := fields_of_toLanguage done
  exact holds_of_fieldOf (isCopyable · = true) rfl isCopyable_of_toTextList onLanguages

theorem regular_of_fromEntries (done : fromEntries entries = .done settings) : settings.Regular := by
  obtain ⟨⟨cache, security, language, level, results⟩, parts, rfl⟩ := Outcome.map_eq_done_iff.mp done
  obtain ⟨-, others⟩ := Outcome.both_eq_done_iff.mp parts
  obtain ⟨onSecurity, others⟩ := Outcome.both_eq_done_iff.mp others
  obtain ⟨onLanguage, -⟩ := Outcome.both_eq_done_iff.mp others
  exact
    { cache := ⟨cache, rfl⟩
      security := ⟨security, rfl,
        holds_of_sectionField RegularSecurity ⟨rfl, .inl rfl⟩ regular_of_toSecurity onSecurity⟩
      language := ⟨language, rfl,
        holds_of_sectionField RegularLanguage (by rfl) regular_of_toLanguage onLanguage⟩ }

theorem fromEntries_of_ofEntries (made : ofEntries entries = .ok settings) : fromEntries entries = .done settings := by
  rw [ofEntries] at made
  split at made
  · cases outcome : fromEntries entries <;> rw [outcome] at made
    case done result => exact congrArg _ (Except.ok.inj made)
    case bad issues => cases made
    case fatal fault => cases made
  · cases made

theorem regular_of_ofEntries (done : ofEntries entries = .ok settings) : settings.Regular :=
  regular_of_fromEntries (fromEntries_of_ofEntries done)

theorem regular_of_toOption (made : (ofEntries entries).toOption = some settings) : settings.Regular := by
  cases done : ofEntries entries with
  | error fault => simp [done, Except.toOption] at made
  | ok result =>
      obtain rfl : result = settings := by simpa [done, Except.toOption] using made
      exact regular_of_ofEntries done

end FromData

theorem Part.exists_change {part : Part α} (kept : ∃ fields, part = .fields fields) (update : α → α) :
    ∃ fields, part.change update = .fields fields := by
  obtain ⟨fields, rfl⟩ := kept
  exact ⟨update fields, rfl⟩

theorem Part.exists_change_and {part : Part α} {holds : α → Prop}
    (kept : ∃ fields, part = .fields fields ∧ holds fields) {update : α → α}
    (keeps : ∀ fields, holds fields → holds (update fields)) :
    ∃ fields, part.change update = .fields fields ∧ holds fields := by
  obtain ⟨fields, rfl, known⟩ := kept
  exact ⟨update fields, rfl, keeps fields known⟩

section Parts

def parts (settings : Settings) : Bool × Bool × Bool :=
  (Part.hasFields settings.cache, Part.hasFields settings.security, Part.hasFields settings.language)

theorem Part.hasFields_eq_true_iff {part : Part α} :
    Part.hasFields part = true ↔ ∃ fields, part = .fields fields := by
  cases part <;> simp [Part.hasFields]

@[simp] theorem Part.hasFields_change (part : Part α) (update : α → α) :
    Part.hasFields (part.change update) = Part.hasFields part := by
  cases part <;> rfl

theorem sectioned_iff_parts {settings : Settings} :
    settings.Sectioned ↔ settings.parts = (true, true, true) := by
  simp only [parts, Prod.mk.injEq, Part.hasFields_eq_true_iff]
  exact ⟨fun known => ⟨known.cache, known.security, known.language⟩,
    fun known => ⟨known.1, known.2.1, known.2.2⟩⟩

@[simp] theorem parts_assignField (settings : Settings) (part field : String) (value : Value) :
    (settings.assignField part field value).parts = settings.parts := by
  rw [assignField.eq_def]
  split <;> simp [parts]

@[simp] theorem parts_adoptBasics (settings other : Settings) :
    (settings.adoptBasics other).parts = settings.parts := by
  rw [adoptBasics.eq_def]
  split <;> simp

theorem parts_of_mem_adoptSteps {other settings after : Settings} {step : Settings → Option Settings}
    (member : step ∈ adoptSteps other) (taken : step settings = some after) :
    after.parts = settings.parts := by
  simp only [adoptSteps, List.mem_cons, List.not_mem_nil, or_false] at member
  rcases member with rfl | rfl | rfl | rfl | rfl | rfl | rfl | rfl | rfl | rfl | rfl <;>
    grind [parts, parts_assignField]

theorem parts_runSteps {steps : List (Settings → Option Settings)}
    (keeps : ∀ step ∈ steps, ∀ settings after, step settings = some after → after.parts = settings.parts)
    (settings : Settings) : (runSteps steps settings).1.parts = settings.parts := by
  induction steps generalizing settings with
  | nil => rfl
  | cons step rest ih =>
      rw [runSteps]
      split
      next after taken =>
        rw [ih fun later member => keeps later (List.mem_cons_of_mem _ member)]
        exact keeps step List.mem_cons_self settings after taken
      next => rfl

theorem parts_of_adopt {settings other after : Settings} (adopted : settings.adopt other = .ok after) :
    after.parts = settings.parts := by
  have kept : (runSteps (adoptSteps other) settings).1.parts = settings.parts :=
    parts_runSteps (fun _ member _ _ => parts_of_mem_adoptSteps member) settings
  rw [adopt] at adopted
  generalize runSteps (adoptSteps other) settings = reached at kept adopted
  obtain ⟨updated, complete⟩ := reached
  obtain ⟨-, -, adopted⟩ := Outcome.bind_eq_ok_iff.mp adopted
  obtain ⟨-, -, adopted⟩ := Outcome.bind_eq_ok_iff.mp adopted
  obtain ⟨-, -, adopted⟩ := Outcome.bind_eq_ok_iff.mp adopted
  obtain ⟨-, -, adopted⟩ := Outcome.bind_eq_ok_iff.mp adopted
  obtain rfl := Except.ok.inj adopted
  cases complete with
  | true => exact kept
  | false => exact (parts_adoptBasics updated other).trans kept

end Parts

theorem Regular.assignField_of_mem_environmentFields (regular : settings.Regular) {name part field : String}
    {read : String → Except Fault Value} (member : (name, part, field, read) ∈ environmentFields) (value : Value) :
    (settings.assignField part field value).Regular := by
  obtain ⟨cache, security, language⟩ := regular
  simp only [environmentFields, List.mem_cons, Prod.mk.injEq, List.not_mem_nil, or_false] at member
  rcases member with ⟨-, rfl, rfl, -⟩ | ⟨-, rfl, rfl, -⟩ | ⟨-, rfl, rfl, -⟩ | ⟨-, rfl, rfl, -⟩ |
    ⟨-, rfl, rfl, -⟩ | ⟨-, rfl, rfl, -⟩
  iterate 3 exact ⟨Part.exists_change cache _, security, language⟩
  · exact ⟨cache, Part.exists_change_and security fun _ known => ⟨known.excluded, known.allowed⟩, language⟩
  iterate 2 exact ⟨cache, security, Part.exists_change_and language fun _ known => known⟩

theorem regular_of_ofEnvironment {environment : Environment} (done : ofEnvironment environment = .ok settings) :
    settings.Regular := by
  obtain ⟨read, folded, named⟩ := Outcome.bind_eq_ok_iff.mp done
  have regular : read.Regular := by
    refine Outcome.holds_of_foldlM ?_ regular_standard folded
    rintro ⟨name, part, field, reading⟩ member settings next regular step
    dsimp only at step
    split at step
    · obtain ⟨value, -, assigned⟩ := Outcome.bind_eq_ok_iff.mp step
      exact Except.ok.inj assigned ▸ regular.assignField_of_mem_environmentFields member value
    · exact Except.ok.inj step ▸ regular
  split at named
  · obtain rfl := Except.ok.inj named
    exact ⟨regular.cache, regular.security, regular.language⟩
  · exact Except.ok.inj named ▸ regular

end Arborist.Settings
