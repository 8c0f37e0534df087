import Arborist.Proofs.Cache.Key
import Arborist.Proofs.Cache.Limits
import Arborist.Proofs.Project.Containment
import Arborist.Proofs.Service.Answers
import Arborist.Proofs.Service.Parsing

/-!
A service with a cache and its twin without one.  Every entry of the cache was made from what some
file system of the run held at the path of its key.  Where the time of a file's last change tells its
content, an entry that is found is therefore what the twin gets by parsing the file again.
-/

namespace Arborist

/-- What an engine makes of a source; it does not depend on what the engine remembers. -/
def Engine.shapeOf (engine : Engine) (source : ByteArray) : Except Fault (Option Nat × Node) :=
  (engine.parse {} source none).map fun (tree, _) => tree.shape

theorem Engine.parse_shape (engine : Engine) (log : EngineLog) (source : ByteArray)
    (previous : Option Tree) :
    (engine.parse log source previous).map (fun (tree, _) => tree.shape) = engine.shapeOf source := by
  cases engine with
  | sketch => rfl
  | recorded record =>
      simp only [shapeOf, parse]
      cases Record.find? record source with
      | none => rfl
      | some found =>
          obtain ⟨index, entry⟩ := found
          dsimp only
          cases entry.parseFault <;> rfl

theorem Engine.parse_cases (engine : Engine) (source : ByteArray) :
    (∃ fault, ∀ log, engine.parse log source none = .error fault) ∨
      ∃ shape, engine.shapeOf source = .ok shape ∧
        ∀ log, ∃ tree after, engine.parse log source none = .ok (tree, after) ∧ tree.shape = shape := by
  cases shaped : engine.shapeOf source with
  | error fault =>
      refine .inl ⟨fault, fun log => ?_⟩
      have same := engine.parse_shape log source none
      rw [shaped] at same
      cases parsed : engine.parse log source none with
      | error other =>
          rw [parsed] at same
          cases same
          rfl
      | ok result =>
          rw [parsed] at same
          cases same
  | ok shape =>
      refine .inr ⟨shape, rfl, fun log => ?_⟩
      have same := engine.parse_shape log source none
      rw [shaped] at same
      cases parsed : engine.parse log source none with
      | error fault =>
          rw [parsed] at same
          cases same
      | ok result =>
          rw [parsed] at same
          exact ⟨result.1, result.2, rfl, Except.ok.inj same⟩

namespace LanguageRegistry

variable {language : String} {engine : Engine}

structure Extends (before after : LanguageRegistry) : Prop where
  extensions : after.extensions = before.extensions
  loaded : ∀ language ∈ before.loaded, language ∈ after.loaded

theorem loadParser_eq_self_iff {registry : LanguageRegistry} :
    registry.loadParser engine language = .ok registry ↔
      engine.parser language = .ok () ∨ language ∈ registry.loaded := by
  unfold loadParser load
  cases engine.parser language with
  | ok _ => simp
  | error fault =>
      by_cases present : language ∈ registry.loaded
      · simp [present]
      · cases engine.grammar language with
        | error fault => simp [present]
        | ok _ =>
            simp only [List.contains_eq_mem, present, decide_false, Bool.false_eq_true, if_false,
              reduceCtorEq, or_self, iff_false]
            intro same
            have lengths := congrArg (fun registry => registry.loaded.length) (Except.ok.inj same)
            simp at lengths

theorem Extends.loadParser_eq {before after : LanguageRegistry} (extended : Extends before after)
    (loadable : before.loadParser engine language = .ok before) :
    after.loadParser engine language = .ok after := by
  rw [loadParser_eq_self_iff] at loadable ⊢
  exact loadable.imp_right (extended.loaded language)

theorem extends_of_load {registry after : LanguageRegistry} (done : registry.load engine language = .ok after) :
    Extends registry after ∧ language ∈ after.loaded := by
  unfold load at done
  split at done
  next present =>
    cases done
    exact ⟨⟨rfl, fun _ member => member⟩, by simpa using present⟩
  next =>
    split at done
    · cases done
      exact ⟨⟨rfl, fun _ member => by simp [member]⟩, by simp⟩
    · cases done

theorem extends_of_loadParser {registry after : LanguageRegistry}
    (done : registry.loadParser engine language = .ok after) :
    Extends registry after ∧ after.loadParser engine language = .ok after := by
  have whole := done
  unfold loadParser at done
  split at done
  · cases done
    exact ⟨⟨rfl, fun _ member => member⟩, whole⟩
  · obtain ⟨extended, loaded⟩ := extends_of_load done
    exact ⟨extended, loadParser_eq_self_iff.mpr (.inr loaded)⟩

theorem exists_extension_of_languageOf? {registry : LanguageRegistry} {name language : String}
    (found : registry.languageOf? name = some language) :
    ∃ pair ∈ registry.extensions, pair.2 = language := by
  unfold languageOf? at found
  obtain ⟨before, after, parts, -⟩ := List.lookup_eq_some_iff.mp found
  exact ⟨(nameEnding name, language), by simp [parts], rfl⟩

end LanguageRegistry

/-- The file systems of a run.  The times of change are numbers of the format, and different contents
of one path have different times. -/
structure Store.Datable (stores : Store → Prop) : Prop where
  representable : ∀ store, stores store → ∀ text content modified,
    store.fileAt? (.ofString text) = some (content, modified) → modified.Representable
  content_eq : ∀ first second, stores first → stores second → ∀ text content other modified,
    first.fileAt? (.ofString text) = some (content, modified) →
      second.fileAt? (.ofString text) = some (other, modified) → content = other

namespace Service

variable {language : String} {path : Path} {parsed : Parsed}

/-- There is a parser for a language without anything having to be loaded. -/
def Loadable (service : Service) (language : String) : Prop :=
  service.registry.loadParser service.engine language = .ok service.registry

/-- What is known of an entry: its language is at hand, and it was made from what some file system
held at its path and at its time. -/
def Genuine (stores : Store → Prop) (service : Service) (entry : CacheEntry) : Prop :=
  ∃ language path modified store,
    entry.key = TreeCache.keyOf language path.text modified ∧ ':' ∉ language.toList ∧ path.Proper ∧
      service.Loadable language ∧ stores store ∧ store.fileAt? path = some (entry.source, modified) ∧
      service.engine.shapeOf entry.source = .ok entry.tree.shape

/-- Two services that differ in their caches and in what their engines remember; the cache of the
second is off. -/
structure Twins (stores : Store → Prop) (cached plain : Service) : Prop where
  store_eq : plain.store = cached.store
  settings_eq : plain.settings = cached.settings
  engine_eq : plain.engine = cached.engine
  registry_eq : plain.registry = cached.registry
  off : plain.cache.enabled.isVoid = true
  known : stores cached.store
  languages : ∀ pair ∈ cached.registry.extensions, ':' ∉ pair.2.toList
  numeric : cached.cache.NumericLimits cached.settings
  genuine : ∀ entry ∈ cached.cache.entries, cached.Genuine stores entry

variable {stores : Store → Prop} {cached plain : Service}

theorem Twins.isEnabled_plain (twins : Twins stores cached plain) :
    plain.cache.isEnabled plain.settings = false := by
  simp [TreeCache.isEnabled, twins.off]

theorem Twins.run_cacheGet_plain (twins : Twins stores cached plain) (path : Path) (language : String) :
    (cacheGet path language).run plain = (.ok none, plain) := by
  rw [run_cacheGet, twins.isEnabled_plain]

theorem Twins.run_cachePut_plain (twins : Twins stores cached plain) (path : Path) (language : String)
    (tree : Tree) (source : ByteArray) :
    (cachePut path language tree source).run plain = (.ok (), plain) := by
  rw [run_cachePut, twins.isEnabled_plain]

theorem Twins.replaceCache (twins : Twins stores cached plain) {cache : TreeCache}
    (limits : cached.cache.SameLimits cache)
    (genuine : ∀ entry ∈ cache.entries, cached.Genuine stores entry) :
    Twins stores { cached with cache } plain :=
  { twins with numeric := twins.numeric.of_sameLimits limits, genuine }

structure Reproduces (service : Service) (path : Path) (language : String) (parsed : Parsed) : Prop where
  bytes : File.readBytes service.store path.text = .ok parsed.source
  shape : service.engine.shapeOf parsed.source = .ok parsed.tree.shape
  loadable : service.Loadable language

/-- An entry under the key of a file is what parsing the file again gives. -/
theorem Genuine.reproduces (datable : Store.Datable stores) {entry : CacheEntry}
    (genuine : cached.Genuine stores entry) (known : stores cached.store) (proper : path.Proper)
    (plainName : ':' ∉ language.toList) (keyed : cached.keyAt? path language = some entry.key) :
    cached.Reproduces path language ⟨entry.tree, entry.source⟩ := by
  obtain ⟨other, place, time, store, key_eq, otherPlain, placeProper, loadable, storeKnown, held, shape⟩ :=
    genuine
  obtain ⟨⟨content, modified⟩, found, same⟩ := Option.map_eq_some_iff.mp keyed
  have foundText : cached.store.fileAt? (.ofString path.text) = some (content, modified) := by
    rwa [Path.ofString_text proper]
  have heldText : store.fileAt? (.ofString place.text) = some (entry.source, time) := by
    rwa [Path.ofString_text placeProper]
  obtain ⟨rfl, sameText, rfl⟩ := TreeCache.keyOf_injective plainName otherPlain
    (datable.representable _ known _ _ _ foundText) (datable.representable _ storeKnown _ _ _ heldText)
    (same.trans key_eq)
  obtain rfl := Path.text_injective proper placeProper sameText
  have sameContent := datable.content_eq _ _ known storeKnown _ _ _ _ foundText heldText
  subst sameContent
  exact ⟨(File.readBytes_text_eq_ok_iff proper).mpr ⟨_, found⟩, shape, loadable⟩

theorem Twins.run_cacheGet (datable : Store.Datable stores) (twins : Twins stores cached plain) (proper : path.Proper)
    (plainName : ':' ∉ language.toList) :
    ∃ result cache, (cacheGet path language).run cached = (.ok result, { cached with cache }) ∧
      Twins stores { cached with cache } plain ∧
      ∀ parsed, result = some parsed → cached.Reproduces path language parsed := by
  rw [Service.run_cacheGet]
  split
  next key _ keyed =>
    obtain ⟨⟨entry, cache⟩, outcome⟩ := twins.numeric.get_isOk cached.clock key
    rw [outcome]
    refine ⟨_, cache, rfl, ?_⟩
    rcases TreeCache.get_eq_ok outcome with ⟨rfl, found, -⟩ | ⟨old, found, -, rfl, rfl⟩
    · refine ⟨twins, ?_⟩
      intro parsed present
      obtain ⟨entry, rfl, rfl⟩ := Option.map_eq_some_iff.mp present
      obtain ⟨member, rfl⟩ := TreeCache.find?_eq_some_mem found.symm
      exact (twins.genuine entry member).reproduces datable twins.known proper plainName keyed
    · refine ⟨twins.replaceCache ⟨rfl, rfl, rfl⟩ ?_, by simp⟩
      intro entry member
      exact twins.genuine entry (List.mem_filter.mp member).1
  next => exact ⟨none, cached.cache, rfl, twins, by simp⟩

theorem Twins.run_cachePut (twins : Twins stores cached plain) (proper : path.Proper)
    (plainName : ':' ∉ language.toList) (reproduces : cached.Reproduces path language parsed) :
    ∃ cache, (cachePut path language parsed.tree parsed.source).run cached =
        (.ok (), { cached with cache }) ∧ Twins stores { cached with cache } plain := by
  rw [Service.run_cachePut]
  split
  next key _ keyed =>
    obtain ⟨cache, outcome⟩ := twins.numeric.put_isOk cached.clock key parsed.tree parsed.source
    rw [outcome]
    refine ⟨cache, rfl, twins.replaceCache (.put outcome) ?_⟩
    intro entry member
    rcases TreeCache.mem_of_put outcome member with rfl | old
    · obtain ⟨⟨content, modified⟩, found, rfl⟩ := Option.map_eq_some_iff.mp keyed
      have read := (File.readBytes_text_eq_ok_iff proper).mpr ⟨_, found⟩
      obtain rfl : parsed.source = content := by
        simpa [reproduces.bytes] using read
      exact ⟨language, path, modified, cached.store, rfl, plainName, proper, reproduces.loadable,
        twins.known, found, reproduces.shape⟩
    · exact twins.genuine entry old
  next => exact ⟨cached.cache, rfl, twins⟩

theorem Twins.setRegistry (twins : Twins stores cached plain) {registry : LanguageRegistry}
    (extended : cached.registry.Extends registry) :
    Twins stores { cached with registry } { plain with registry } :=
  { twins with
    registry_eq := rfl
    languages := by
      intro pair member
      exact twins.languages pair (extended.extensions ▸ member)
    genuine := by
      intro entry member
      obtain ⟨language, path, modified, store, key_eq, plainName, proper, loadable, rest⟩ :=
        twins.genuine entry member
      exact ⟨language, path, modified, store, key_eq, plainName, proper, extended.loadParser_eq loadable,
        rest⟩ }

theorem Twins.replaceRegistry_bind (twins : Twins stores cached plain) {load : Action Unit}
    {outcome : Except Fault LanguageRegistry} (onCached : load.run cached = cached.replaceRegistry outcome)
    (onPlain : load.run plain = plain.replaceRegistry outcome)
    (loads : ∀ registry, outcome = .ok registry → cached.registry.Extends registry ∧
      registry.loadParser cached.engine language = .ok registry)
    {same : α → β → Prop} {next : Action α} {follow : Action β}
    (continues : ∀ registry, Twins stores { cached with registry } { plain with registry } →
      Loadable { cached with registry } language →
      Action.EndAlike (Twins stores) same (next.run { cached with registry })
        (follow.run { plain with registry })) :
    Action.EndAlike (Twins stores) same ((load >>= fun _ => next).run cached)
      ((load >>= fun _ => follow).run plain) := by
  rw [Action.run_bind, Action.run_bind, onCached, onPlain]
  cases outcome with
  | error fault => exact ⟨.error fault, twins⟩
  | ok registry =>
      obtain ⟨extended, loadable⟩ := loads registry rfl
      exact continues registry (twins.setRegistry extended) loadable

theorem Twins.loadLanguage_bind (twins : Twins stores cached plain) (language : String)
    {same : α → β → Prop} {next : Action α} {follow : Action β}
    (continues : ∀ registry, Twins stores { cached with registry } { plain with registry } →
      Loadable { cached with registry } language →
      Action.EndAlike (Twins stores) same (next.run { cached with registry })
        (follow.run { plain with registry })) :
    Action.EndAlike (Twins stores) same ((loadLanguage language >>= fun _ => next).run cached)
      ((loadLanguage language >>= fun _ => follow).run plain) := by
  refine twins.replaceRegistry_bind (run_loadLanguage cached language) ?_ ?_ continues
  · rw [run_loadLanguage, twins.registry_eq, twins.engine_eq]
  · intro registry done
    obtain ⟨extended, loaded⟩ := LanguageRegistry.extends_of_load done
    exact ⟨extended, LanguageRegistry.loadParser_eq_self_iff.mpr (.inr loaded)⟩

theorem Twins.loadParser_bind (twins : Twins stores cached plain) (language : String)
    {same : α → β → Prop} {next : Action α} {follow : Action β}
    (continues : ∀ registry, Twins stores { cached with registry } { plain with registry } →
      Loadable { cached with registry } language →
      Action.EndAlike (Twins stores) same (next.run { cached with registry })
        (follow.run { plain with registry })) :
    Action.EndAlike (Twins stores) same ((loadParser language >>= fun _ => next).run cached)
      ((loadParser language >>= fun _ => follow).run plain) := by
  refine twins.replaceRegistry_bind (run_loadParser cached language) ?_ ?_ continues
  · rw [run_loadParser, twins.registry_eq, twins.engine_eq]
  · exact fun registry => LanguageRegistry.extends_of_loadParser

theorem Reproduces.run_loadParser (twins : Twins stores cached plain)
    (reproduces : cached.Reproduces path language parsed) :
    (loadParser language).run plain = (.ok (), plain) := by
  rw [Service.run_loadParser, twins.registry_eq, twins.engine_eq, reproduces.loadable, ← twins.registry_eq]
  rfl

theorem Twins.setEngineLogs (twins : Twins stores cached plain) (log other : EngineLog) :
    Twins stores { cached with engineLog := log } { plain with engineLog := other } :=
  { twins with }

theorem Twins.keepTree (twins : Twins stores cached plain) (proper : path.Proper) (plainName : ':' ∉ language.toList)
    {source : ByteArray} (bytes : File.readBytes cached.store path.text = .ok source)
    (loadable : cached.Loadable language) :
    Action.EndAlike (Twins stores) Parsed.Same ((keepTree path language source).run cached)
      ((keepTree path language source).run plain) := by
  unfold Service.keepTree
  simp only [Action.run_bind, run_parseSource]
  have sameEngine := twins.engine_eq
  rcases cached.engine.parse_cases source with ⟨fault, fails⟩ | ⟨shape, shaped, parses⟩
  · rw [fails, sameEngine, fails]
    exact ⟨.error fault, twins⟩
  · obtain ⟨tree, log, parsed, rfl⟩ := parses cached.engineLog
    obtain ⟨other, otherLog, otherParsed, sameShape⟩ := parses plain.engineLog
    rw [← sameEngine] at otherParsed
    rw [parsed, otherParsed]
    have logged := twins.setEngineLogs log otherLog
    have reproduces : Reproduces { cached with engineLog := log } path language ⟨tree, source⟩ :=
      ⟨bytes, shaped, loadable⟩
    obtain ⟨cache, stored, kept⟩ := logged.run_cachePut proper plainName reproduces
    dsimp only at stored ⊢
    rw [stored, logged.run_cachePut_plain]
    exact ⟨.ok ⟨sameShape.symm, rfl⟩, kept⟩

theorem Reproduces.run_keepTree (twins : Twins stores cached plain)
    (reproduces : cached.Reproduces path language parsed) :
    ∃ again log, (Service.keepTree path language parsed.source).run plain =
      (.ok again, { plain with engineLog := log }) ∧ parsed.Same again := by
  unfold Service.keepTree
  simp only [Action.run_bind, run_parseSource]
  have shaped := reproduces.shape
  rw [← twins.engine_eq] at shaped
  rcases plain.engine.parse_cases parsed.source with ⟨fault, fails⟩ | ⟨shape, sameShape, parses⟩
  · simp [Engine.shapeOf, fails, Except.map] at shaped
  · obtain ⟨tree, log, done, rfl⟩ := parses plain.engineLog
    rw [done]
    have logged := twins.setEngineLogs cached.engineLog log
    dsimp only
    rw [logged.run_cachePut_plain]
    rw [shaped] at sameShape
    exact ⟨⟨tree, parsed.source⟩, log, rfl, Except.ok.inj sameShape, rfl⟩

/-- Going through the cache ends alike if the fallback does, and if the fallback of the twin gives
again what is known to be reproduced. -/
theorem Twins.throughCache (datable : Store.Datable stores) (twins : Twins stores cached plain) (proper : path.Proper)
    (plainName : ':' ∉ language.toList) {fallback : Action Parsed}
    (missed : ∀ cache, Twins stores { cached with cache } plain →
      Action.EndAlike (Twins stores) Parsed.Same (fallback.run { cached with cache }) (fallback.run plain))
    (hit : ∀ parsed, cached.Reproduces path language parsed →
      ∃ again log, fallback.run plain = (.ok again, { plain with engineLog := log }) ∧ parsed.Same again) :
    Action.EndAlike (Twins stores) Parsed.Same ((throughCache path language fallback).run cached)
      ((throughCache path language fallback).run plain) := by
  unfold Service.throughCache
  obtain ⟨result, cache, got, kept, reproduces⟩ := twins.run_cacheGet datable proper plainName
  rw [Action.run_bind, Action.run_bind, got, twins.run_cacheGet_plain]
  cases result with
  | none => exact missed cache kept
  | some parsed =>
      obtain ⟨again, log, ends, same⟩ := hit parsed (reproduces parsed rfl)
      dsimp only
      rw [ends]
      exact ⟨.ok same, { kept with }⟩

theorem Twins.readAndKeep (twins : Twins stores cached plain) (proper : path.Proper)
    (plainName : ':' ∉ language.toList) (loadable : cached.Loadable language) :
    Action.EndAlike (Twins stores) Parsed.Same ((readSource path >>= Service.keepTree path language).run cached)
      ((readSource path >>= Service.keepTree path language).run plain) := by
  rw [Action.run_bind, Action.run_bind, run_readSource, run_readSource, twins.store_eq]
  cases read : File.readBytes cached.store path.text with
  | error fault => exact ⟨.error fault, twins⟩
  | ok source => exact twins.keepTree proper plainName read loadable

theorem Reproduces.run_readSource (twins : Twins stores cached plain)
    (reproduces : cached.Reproduces path language parsed) :
    (readSource path).run plain = (.ok parsed.source, plain) := by
  rw [Service.run_readSource, twins.store_eq, reproduces.bytes]

theorem Reproduces.run_readAndKeep (twins : Twins stores cached plain)
    (reproduces : cached.Reproduces path language parsed) :
    ∃ again log, (readSource path >>= Service.keepTree path language).run plain =
      (.ok again, { plain with engineLog := log }) ∧ parsed.Same again := by
  rw [Action.run_bind, reproduces.run_readSource twins]
  exact reproduces.run_keepTree twins

theorem Twins.parseCached (datable : Store.Datable stores) (twins : Twins stores cached plain) (proper : path.Proper)
    (plainName : ':' ∉ language.toList) (loadable : cached.Loadable language) :
    Action.EndAlike (Twins stores) Parsed.Same ((parseCached path language).run cached)
      ((parseCached path language).run plain) := by
  rw [parseCached_eq]
  apply twins.throughCache datable proper plainName
  · intro cache kept
    exact kept.readAndKeep proper plainName loadable
  · intro parsed reproduces
    exact reproduces.run_readAndKeep twins

theorem agree_parseCached (datable : Store.Datable stores) (proper : path.Proper) (plainName : ':' ∉ language.toList) :
    Action.Agree (Twins stores) Parsed.Same (loadLanguage language >>= fun _ => parseCached path language)
      (loadLanguage language >>= fun _ => parseCached path language) := by
  intro cached plain twins
  apply twins.loadLanguage_bind
  intro registry loaded loadable
  exact loaded.parseCached datable proper plainName loadable

theorem agree_parseFile (datable : Store.Datable stores) (proper : path.Proper) (plainName : ':' ∉ language.toList) :
    Action.Agree (Twins stores) Parsed.Same (parseFile path language) (parseFile path language) := by
  intro cached plain twins
  rw [parseFile_eq]
  apply twins.throughCache datable proper plainName
  · intro cache kept
    apply Action.EndAlike.mapFault
    apply kept.loadParser_bind
    intro registry loaded loadable
    exact loaded.readAndKeep proper plainName loadable
  · intro parsed reproduces
    obtain ⟨again, log, ends, same⟩ := reproduces.run_readAndKeep twins
    refine ⟨again, log, ?_, same⟩
    rw [Action.run_mapFault, Action.run_bind, reproduces.run_loadParser twins]
    dsimp only
    rw [ends]
    rfl

theorem agree_parseForQuery (datable : Store.Datable stores) (proper : path.Proper)
    (plainName : ':' ∉ language.toList) :
    Action.Agree (Twins stores) Parsed.Same (Search.parseForQuery path language)
      (Search.parseForQuery path language) := by
  intro cached plain twins
  rw [parseForQuery_eq]
  apply twins.throughCache datable proper plainName
  · intro cache kept
    rw [Action.run_bind, Action.run_bind, run_readSource, run_readSource, kept.store_eq]
    cases read : File.readBytes cached.store path.text with
    | error fault => exact ⟨.error fault, kept⟩
    | ok source =>
        apply kept.loadParser_bind
        intro registry loaded loadable
        exact loaded.keepTree proper plainName read loadable
  · intro parsed reproduces
    obtain ⟨again, log, ends, same⟩ := reproduces.run_keepTree twins
    refine ⟨again, log, ?_, same⟩
    rw [Action.run_bind, reproduces.run_readSource twins]
    dsimp only
    rw [Action.run_bind, reproduces.run_loadParser twins]
    exact ends

theorem agree_loadLanguage (language : String) :
    Action.Agree (Twins stores) Eq (loadLanguage language) (loadLanguage language) := by
  intro cached plain twins
  rw [run_loadLanguage, run_loadLanguage, twins.registry_eq, twins.engine_eq]
  cases loaded : cached.registry.load cached.engine language with
  | error fault => exact ⟨.error fault, twins⟩
  | ok registry =>
      have extended := (LanguageRegistry.extends_of_load loaded).1
      exact ⟨.ok rfl, twins.setRegistry extended⟩

/-- Twins answer questions about a project alike: the paths, the languages and the lines do not depend
on the cache, and the trees have one shape. -/
theorem twins_answering (datable : Store.Datable stores) {project : Project}
    (rootProper : project.root.Proper) :
    Answering (Twins stores) project Path.Proper fun language => ':' ∉ language.toList where
  engine_eq twins := twins.engine_eq
  extensions_eq twins := by rw [twins.registry_eq]
  compiled _ twins := { twins with }
  named_of_languageOf? := by
    intro cached plain file language twins found
    obtain ⟨pair, member, rfl⟩ := LanguageRegistry.exists_extension_of_languageOf? found
    exact twins.languages pair member
  filePath_eq twins file := by rw [twins.store_eq]
  checkAccess_eq twins file root := by rw [twins.store_eq, twins.settings_eq]
  readable_of_checkAccess _ accepted _ := Project.filePath_proper rootProper accepted
  files_eq twins := by rw [twins.store_eq]
  readLines _ cached plain twins := by
    rw [Action.run_onStore, Action.run_onStore, twins.store_eq]
    exact ⟨.refl _, twins⟩
  loadLanguage _ := agree_loadLanguage _
  parseFile := agree_parseFile datable
  parseCached := agree_parseCached datable
  parseForQuery := agree_parseForQuery datable

end Service

end Arborist
