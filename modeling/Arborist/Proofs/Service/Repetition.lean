import Arborist.Proofs.Service.Transparency

/-!
Asking again.  Without a cache a question leaves behind what has been loaded, what has been compiled and
what the engine remembers, and no answer depends on these.  So a question has the answer that it would have
had before others were asked; and as long as the cache holds nothing but what the files say, this is so with
the cache, too.
-/

namespace Arborist

namespace LanguageRegistry

def loadOutcome (registry : LanguageRegistry) (engine : Engine) (language : String) : Except Fault Unit :=
  (registry.load engine language).map fun _ => ()

theorem loadOutcome_of_load {registry after : LanguageRegistry} {engine : Engine} {language : String}
    (done : registry.load engine language = .ok after) (other : String) :
    after.loadOutcome engine other = registry.loadOutcome engine other := by
  unfold loadOutcome
  by_cases same : other = language
  · subst same
    have again : after.load engine other = .ok after := by
      simp [load, (extends_of_load done).2]
    rw [again, done]
  · unfold load at done
    split at done
    · cases done
      rfl
    · split at done
      · cases done
        have listed : other ∈ registry.loaded ++ [language] ↔ other ∈ registry.loaded := by simp [same]
        simp only [load, List.contains_eq_mem, listed]
        split
        · rfl
        · cases engine.grammar other <;> rfl
      · cases done

theorem loadOutcome_of_loadParser {registry after : LanguageRegistry} {engine : Engine} {language : String}
    (done : registry.loadParser engine language = .ok after) (other : String) :
    after.loadOutcome engine other = registry.loadOutcome engine other := by
  unfold loadParser at done
  split at done
  · cases done
    rfl
  · exact loadOutcome_of_load done other

theorem loadParser_map (registry : LanguageRegistry) (engine : Engine) (language : String) :
    (registry.loadParser engine language).map (fun _ => ()) =
      match engine.parser language with
      | .ok _ => .ok ()
      | .error _ => registry.loadOutcome engine language := by
  unfold loadParser
  cases engine.parser language <;> rfl

end LanguageRegistry

namespace Service

/-- A service without a cache that is in no way that matters different from a first one. -/
structure Like (start service : Service) : Prop where
  store_eq : service.store = start.store
  settings_eq : service.settings = start.settings
  engine_eq : service.engine = start.engine
  extensions_eq : service.registry.extensions = start.registry.extensions
  loadOutcome_eq : ∀ language,
    service.registry.loadOutcome start.engine language = start.registry.loadOutcome start.engine language
  off : service.cache.enabled.isVoid = true

def BothLike (start first second : Service) : Prop := Like start first ∧ Like start second

variable {start : Service}

theorem Like.setRegistry {service : Service} (like : Like start service) {registry : LanguageRegistry}
    (extended : service.registry.Extends registry)
    (outcomes : ∀ language, registry.loadOutcome start.engine language =
      service.registry.loadOutcome start.engine language) :
    Like start { service with registry } :=
  { like with
    extensions_eq := extended.extensions.trans like.extensions_eq
    loadOutcome_eq := fun language => (outcomes language).trans (like.loadOutcome_eq language) }

theorem agree_replaceRegistry {load : Action Unit}
    (outcome : LanguageRegistry → Except Fault LanguageRegistry) (expected : Except Fault Unit)
    (runs : ∀ service, Like start service →
      load.run service = service.replaceRegistry (outcome service.registry))
    (ends : ∀ service, Like start service → (outcome service.registry).map (fun _ => ()) = expected)
    (keeps : ∀ service registry, Like start service → outcome service.registry = .ok registry →
      Like start { service with registry }) :
    Action.Agree (BothLike start) Eq load load := by
  rintro first second ⟨likeFirst, likeSecond⟩
  rw [runs first likeFirst, runs second likeSecond]
  have same := (ends first likeFirst).trans (ends second likeSecond).symm
  cases onFirst : outcome first.registry with
  | error fault =>
      cases onSecond : outcome second.registry with
      | error other =>
          rw [onFirst, onSecond] at same
          cases same
          exact ⟨.error fault, likeFirst, likeSecond⟩
      | ok registry =>
          rw [onFirst, onSecond] at same
          cases same
  | ok registry =>
      cases onSecond : outcome second.registry with
      | error other =>
          rw [onFirst, onSecond] at same
          cases same
      | ok other => exact ⟨.ok rfl, keeps _ _ likeFirst onFirst, keeps _ _ likeSecond onSecond⟩

theorem agree_loadLanguage_like (language : String) :
    Action.Agree (BothLike start) Eq (loadLanguage language) (loadLanguage language) := by
  apply agree_replaceRegistry (fun registry => registry.load start.engine language)
    (start.registry.loadOutcome start.engine language)
  · intro service like
    rw [run_loadLanguage, like.engine_eq]
  · exact fun service like => like.loadOutcome_eq language
  · intro service registry like done
    exact like.setRegistry (LanguageRegistry.extends_of_load done).1
      (LanguageRegistry.loadOutcome_of_load done)

theorem agree_loadParser_like (language : String) :
    Action.Agree (BothLike start) Eq (loadParser language) (loadParser language) := by
  apply agree_replaceRegistry (fun registry => registry.loadParser start.engine language)
    ((start.registry.loadParser start.engine language).map fun _ => ())
  · intro service like
    rw [run_loadParser, like.engine_eq]
  · intro service like
    rw [LanguageRegistry.loadParser_map, LanguageRegistry.loadParser_map, like.loadOutcome_eq]
  · intro service registry like done
    exact like.setRegistry (LanguageRegistry.extends_of_loadParser done).1
      (LanguageRegistry.loadOutcome_of_loadParser done)

theorem agree_onStore_like (read : Store → Except Fault α) :
    Action.Agree (BothLike start) Eq (Action.onStore read) (Action.onStore read) := by
  rintro first second ⟨likeFirst, likeSecond⟩
  rw [Action.run_onStore, Action.run_onStore, likeFirst.store_eq, likeSecond.store_eq]
  exact ⟨.refl _, likeFirst, likeSecond⟩

theorem Like.run_keepTree {service : Service} (like : Like start service) (path : Path) (language : String)
    (source : ByteArray) {tree : Tree} {log : EngineLog}
    (parsed : service.engine.parse service.engineLog source none = .ok (tree, log)) :
    (keepTree path language source).run service = (.ok ⟨tree, source⟩, { service with engineLog := log }) := by
  have disabled : service.cache.isEnabled service.settings = false := by
    simp [TreeCache.isEnabled, like.off]
  unfold keepTree
  simp only [Action.run_bind, run_parseSource, parsed, run_cachePut, disabled]
  rfl

theorem agree_keepTree_like (path : Path) (language : String) (source : ByteArray) :
    Action.Agree (BothLike start) Parsed.Same (keepTree path language source)
      (keepTree path language source) := by
  rintro first second ⟨likeFirst, likeSecond⟩
  rcases start.engine.parse_cases source with ⟨fault, fails⟩ | ⟨shape, -, parses⟩
  · unfold keepTree
    simp only [Action.run_bind, run_parseSource, likeFirst.engine_eq, likeSecond.engine_eq, fails]
    exact ⟨.error fault, likeFirst, likeSecond⟩
  · obtain ⟨tree, log, parsed, shaped⟩ := parses first.engineLog
    obtain ⟨other, otherLog, otherParsed, otherShaped⟩ := parses second.engineLog
    rw [← likeFirst.engine_eq] at parsed
    rw [← likeSecond.engine_eq] at otherParsed
    rw [likeFirst.run_keepTree path language source parsed,
      likeSecond.run_keepTree path language source otherParsed]
    exact ⟨.ok ⟨shaped.trans otherShaped.symm, rfl⟩, { likeFirst with }, { likeSecond with }⟩

theorem agree_throughCache_like (path : Path) (language : String) {fallback : Action Parsed}
    (agree : Action.Agree (BothLike start) Parsed.Same fallback fallback) :
    Action.Agree (BothLike start) Parsed.Same (throughCache path language fallback)
      (throughCache path language fallback) := by
  rintro first second ⟨likeFirst, likeSecond⟩
  rw [run_throughCache_of_off likeFirst.off, run_throughCache_of_off likeSecond.off]
  exact agree first second ⟨likeFirst, likeSecond⟩

/-- Services like a first one answer every question alike and stay like it. -/
theorem answering_like (start : Service) (project : Project) :
    Answering (BothLike start) project (fun _ => True) fun _ => True where
  engine_eq both := both.2.engine_eq.trans both.1.engine_eq.symm
  extensions_eq both := both.2.extensions_eq.trans both.1.extensions_eq.symm
  compiled _ both := ⟨{ both.1 with }, { both.2 with }⟩
  named_of_languageOf? _ _ := trivial
  filePath_eq both file := by rw [both.1.store_eq, both.2.store_eq]
  checkAccess_eq both file root := by
    rw [both.1.store_eq, both.2.store_eq, both.1.settings_eq, both.2.settings_eq]
  readable_of_checkAccess _ _ _ := trivial
  files_eq both := by rw [both.1.store_eq, both.2.store_eq]
  readLines _ := agree_onStore_like _
  loadLanguage _ := agree_loadLanguage_like _
  parseFile := by
    intro path language _ _
    rw [parseFile_eq]
    refine agree_throughCache_like path language (Action.Agree.mapFault ?_ _)
    refine (agree_loadParser_like language).bind_eq fun _ => ?_
    exact (agree_onStore_like _).bind_eq (agree_keepTree_like path language)
  parseCached := by
    intro path language _ _
    refine (agree_loadLanguage_like language).bind_eq fun _ => ?_
    rw [parseCached_eq]
    refine agree_throughCache_like path language ?_
    exact (agree_onStore_like _).bind_eq (agree_keepTree_like path language)
  parseForQuery := by
    intro path language _ _
    rw [parseForQuery_eq]
    refine agree_throughCache_like path language ?_
    refine (agree_onStore_like _).bind_eq fun source => ?_
    exact (agree_loadParser_like language).bind_eq fun _ => agree_keepTree_like path language source

theorem like_withoutCache (service : Service) : Like service.withoutCache service.withoutCache where
  store_eq := rfl
  settings_eq := rfl
  engine_eq := rfl
  extensions_eq := rfl
  loadOutcome_eq _ := rfl
  off := rfl

/-! Caches that hold what the files say. -/

/-- Every entry of the cache was made from what a file held at its time, and the time of a file tells its
content. -/
def Faithful (service : Service) : Prop :=
  ∃ known, Store.Datable known ∧ Twins known service service.withoutCache

theorem Twins.faithful {known : Store → Prop} {cached plain : Service} (datable : Store.Datable known)
    (twins : Twins known cached plain) : cached.Faithful := by
  refine ⟨known, datable, ?_⟩
  exact { twins with store_eq := rfl, settings_eq := rfl, engine_eq := rfl, registry_eq := rfl, off := rfl }

theorem faithful_answer (service : Service) (turns : List Turn)
    (empty : service.cache.entries = []) (numeric : service.cache.NumericLimits service.settings)
    (plainNames : ∀ pair ∈ service.registry.extensions, ':' ∉ pair.2.toList)
    (allowed : ∀ turn ∈ turns, turn.Plain) (datable : Store.Datable (service.stores turns)) :
    (service.answer id turns).2.Faithful := by
  have start : Twins (service.stores turns) service service.withoutCache :=
    twins_withoutCache (.inl rfl) empty numeric plainNames
  exact (start.answer datable turns allowed fun _ => .inr).2.faithful datable

end Service

end Arborist
