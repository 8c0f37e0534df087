import Arborist.Proofs.Analysis.Asking
import Arborist.Proofs.Service.Keeping
import Arborist.Proofs.Service.Twins

/-!
Opening a file twice.  What is cached of a file that was just opened is what was parsed, and so is what
the file still holds; the second time gives the same tree, but for its number.
-/

namespace Arborist

namespace TreeCache

theorem find?_eq_none_of_get {cache after : TreeCache} {settings : Settings} {now : Binary64} {key : String}
    (done : cache.get settings now key = .ok (none, after)) : after.find? key = none := by
  rcases get_eq_ok done with ⟨rfl, missing, -⟩ | ⟨old, found, -, rfl, -⟩
  · exact missing.symm
  · have removed := find?_foldl_remove [old] cache key
    have same : old.key = key := (find?_eq_some_mem found).2
    rw [if_pos (mem_keys.mpr ⟨old, List.mem_singleton_self old, same⟩)] at removed
    exact removed

theorem eq_of_put_of_find? {cache after : TreeCache} {settings : Settings} {now : Binary64} {key : String}
    {tree : Tree} {source : ByteArray} (done : cache.put settings now key tree source = .ok after)
    (fresh : cache.find? key = none) {entry : CacheEntry} (found : after.find? key = some entry) :
    entry = ⟨key, tree, source, now⟩ := by
  obtain ⟨member, same⟩ := find?_eq_some_mem found
  rcases mem_of_put done member with stored | old
  · exact stored
  · exact absurd (mem_keys.mpr ⟨entry, old, same⟩) (find?_eq_none_iff.mp fresh)

end TreeCache

namespace Service

variable {service after : Service} {path : Path} {language : String} {parsed again : Parsed}

structure Settled (service : Service) (path : Path) (language : String) (parsed : Parsed) : Prop where
  hit : ∀ found, ((cacheGet path language).run service).1 = .ok (some found) → found.Same parsed
  miss : ((cacheGet path language).run service).1 = .ok none →
    File.readBytes service.store path.text = .ok parsed.source ∧
      service.engine.shapeOf parsed.source = .ok parsed.tree.shape

structure Onward (before after : Service) : Prop where
  store_eq : after.store = before.store
  settings_eq : after.settings = before.settings
  clock_eq : after.clock = before.clock
  engine_eq : after.engine = before.engine
  extensions_eq : after.registry.extensions = before.registry.extensions

theorem cacheGet_eq_none (missed : ((cacheGet path language).run service).1 = .ok none) :
    ∃ cache, (cacheGet path language).run service = (.ok none, { service with cache }) ∧
      service.cache.SameLimits cache ∧
      ∀ key, service.cache.isEnabled service.settings = true → service.keyAt? path language = some key →
        cache.find? key = none := by
  rw [run_cacheGet] at missed ⊢
  split at missed
  next key enabled keyed =>
    split at missed
    next entry cache got =>
      have absent : entry = none := by simpa using missed
      subst absent
      have limits := TreeCache.SameLimits.get got
      refine ⟨cache, rfl, limits, ?_⟩
      intro other _ keyedOther
      obtain rfl : key = other := Option.some.inj (keyed.symm.trans keyedOther)
      exact TreeCache.find?_eq_none_of_get got
    next => cases missed
  next shut =>
    refine ⟨service.cache, rfl, .refl _, ?_⟩
    intro key enabled keyed
    exact absurd keyed (shut key enabled)

theorem cacheGet_of_live (live : ((cacheGet path language).run service).1 = .ok (some parsed)) :
    (cacheGet path language).run service = (.ok (some parsed), service) := by
  obtain ⟨key, entry, enabled, keyed, got, rfl⟩ := exists_key_of_cacheGet live
  rw [run_cacheGet, keyed]
  simp only [enabled, got]
  rfl

theorem keepTree_eq_ok {source : ByteArray}
    (done : (keepTree path language source).run service = (.ok parsed, after)) :
    parsed.source = source ∧ service.engine.shapeOf source = .ok parsed.tree.shape ∧
      ∃ engineLog, (cachePut path language parsed.tree source).run { service with engineLog } =
        (.ok (), after) := by
  unfold keepTree at done
  rw [Action.run_bind, run_parseSource] at done
  have shaped := service.engine.parse_shape service.engineLog source none
  cases parses : service.engine.parse service.engineLog source none with
  | error fault =>
      rw [parses] at done
      cases done
  | ok made =>
      obtain ⟨tree, engineLog⟩ := made
      rw [parses] at done shaped
      dsimp only at done
      rw [Action.run_bind] at done
      rcases ran : (cachePut path language tree source).run { service with engineLog } with ⟨result, last⟩
      rw [ran] at done
      cases result with
      | error fault => cases done
      | ok value =>
          cases done
          exact ⟨rfl, shaped.symm, engineLog, ran⟩

theorem same_of_cachePut {tree : Tree} {source : ByteArray}
    (done : (cachePut path language tree source).run service = (.ok (), after))
    (fresh : ∀ key, service.cache.isEnabled service.settings = true →
      service.keyAt? path language = some key → service.cache.find? key = none)
    (live : ((cacheGet path language).run after).1 = .ok (some again)) :
    again.tree = tree ∧ again.source = source := by
  obtain ⟨key, entry, enabled, keyed, got, rfl⟩ := exists_key_of_cacheGet live
  rw [run_cachePut] at done
  have found : after.cache.find? key = some entry := by
    rcases TreeCache.get_eq_ok got with ⟨-, found, -⟩ | ⟨-, -, -, -, missing⟩
    · exact found.symm
    · cases missing
  split at done
  next other isEnabled keyedOther =>
    cases put : service.cache.put service.settings service.clock other tree source with
    | error fault =>
        rw [put] at done
        cases done
    | ok cache =>
        rw [put] at done
        cases done
        obtain rfl : other = key := Option.some.inj (keyedOther.symm.trans keyed)
        have stored := TreeCache.eq_of_put_of_find? put (fresh other isEnabled keyedOther) found
        rw [stored]
        exact ⟨rfl, rfl⟩
  next shut =>
    cases done
    exact absurd keyed (shut key enabled)

theorem onward_of_cachePut {tree : Tree} {source : ByteArray}
    (done : (cachePut path language tree source).run service = (.ok (), after)) : service.Onward after := by
  rw [run_cachePut] at done
  split at done
  next key _ _ =>
    cases put : service.cache.put service.settings service.clock key tree source with
    | error fault =>
        rw [put] at done
        cases done
    | ok cache =>
        rw [put] at done
        cases done
        exact ⟨rfl, rfl, rfl, rfl, rfl⟩
  next =>
    cases done
    exact ⟨rfl, rfl, rfl, rfl, rfl⟩

theorem parseCached_eq_ok (done : (parseCached path language).run service = (.ok parsed, after)) :
    ((cacheGet path language).run service).1 = .ok (some parsed) ∧ after = service ∨
      ((cacheGet path language).run service).1 = .ok none ∧
        File.readBytes service.store path.text = .ok parsed.source ∧
        service.engine.shapeOf parsed.source = .ok parsed.tree.shape ∧
        ∃ cache engineLog, service.cache.SameLimits cache ∧
          (∀ key, service.cache.isEnabled service.settings = true →
            service.keyAt? path language = some key → cache.find? key = none) ∧
          (cachePut path language parsed.tree parsed.source).run { service with cache, engineLog } =
            (.ok (), after) := by
  rw [parseCached_eq, throughCache, Action.run_bind] at done
  rcases ran : (cacheGet path language).run service with ⟨result, next⟩
  have got : ((cacheGet path language).run service).1 = result := congrArg Prod.fst ran
  rw [ran] at done
  cases result with
  | error fault => cases done
  | ok held =>
      cases held with
      | some found =>
          rw [cacheGet_of_live got] at ran
          cases ran
          cases done
          exact .inl ⟨rfl, rfl⟩
      | none =>
          obtain ⟨cache, missed, limits, fresh⟩ := cacheGet_eq_none got
          rw [ran] at missed
          cases missed
          dsimp only at done
          rw [Action.run_bind, run_readSource] at done
          cases read : File.readBytes service.store path.text with
          | error fault => simp [read] at done
          | ok source =>
              simp only [read] at done
              obtain ⟨rfl, shaped, engineLog, put⟩ := keepTree_eq_ok done
              exact .inr ⟨rfl, rfl, shaped, cache, engineLog, limits, fresh, put⟩

theorem settled_of_parseCached (done : (parseCached path language).run service = (.ok parsed, after)) :
    service.Onward after ∧ after.Settled path language parsed := by
  rcases parseCached_eq_ok done with ⟨got, rfl⟩ | ⟨-, read, shaped, cache, engineLog, limits, fresh, put⟩
  · refine ⟨⟨rfl, rfl, rfl, rfl, rfl⟩, ?_, ?_⟩
    · intro found live
      rw [got] at live
      cases live
      exact ⟨rfl, rfl⟩
    · intro missed
      rw [got] at missed
      cases missed
  · obtain ⟨store_eq, settings_eq, clock_eq, engine_eq, extensions_eq⟩ := onward_of_cachePut put
    refine ⟨⟨store_eq, settings_eq, clock_eq, engine_eq, extensions_eq⟩, ?_, ?_⟩
    · -- nothing was under the key, so that what is found now was put just before
      intro found live
      have stillFresh : ∀ key, cache.isEnabled service.settings = true →
          service.keyAt? path language = some key → cache.find? key = none := by
        intro key enabled keyed
        refine fresh key ?_ keyed
        rwa [TreeCache.isEnabled, ← limits.enabled]
      obtain ⟨sameTree, sameSource⟩ := same_of_cachePut put stillFresh live
      exact ⟨congrArg Tree.shape sameTree, sameSource⟩
    · intro _
      rw [store_eq, engine_eq]
      exact ⟨read, shaped⟩

theorem Settled.same_of_parseCached (settled : service.Settled path language parsed)
    (done : ((parseCached path language).run service).1 = .ok again) : again.Same parsed := by
  have ran : (parseCached path language).run service =
      (.ok again, ((parseCached path language).run service).2) := Prod.ext done rfl
  rcases parseCached_eq_ok ran with ⟨got, -⟩ | ⟨missed, read, shaped, -⟩
  · exact settled.hit again got
  · obtain ⟨readBefore, shapedBefore⟩ := settled.miss missed
    have source_eq : again.source = parsed.source := Except.ok.inj (read.symm.trans readBefore)
    rw [source_eq] at shaped
    exact ⟨Except.ok.inj (shaped.symm.trans shapedBefore), source_eq⟩

/-! Languages do not matter to what is cached. -/

theorem Settled.setRegistry (settled : service.Settled path language parsed)
    (registry : LanguageRegistry) : { service with registry }.Settled path language parsed := by
  have same : ((cacheGet path language).run { service with registry }).1 =
      ((cacheGet path language).run service).1 := by
    have keyed : keyAt? { service with registry } path language = service.keyAt? path language := rfl
    rw [run_cacheGet, run_cacheGet, keyed]
    dsimp only
    cases service.cache.isEnabled service.settings with
    | false => rfl
    | true =>
        cases service.keyAt? path language with
        | none => rfl
        | some key =>
            dsimp only
            cases service.cache.get service.settings service.clock key <;> rfl
  refine ⟨?_, ?_⟩
  · rw [same]
    exact settled.hit
  · rw [same]
    exact settled.miss

theorem openAs_eq_ok (done : (openAs path language).run service = (.ok parsed, after)) :
    ∃ registry, service.registry.load service.engine language = .ok registry ∧
      (parseCached path language).run { service with registry } = (.ok parsed, after) := by
  unfold openAs at done
  rw [Action.run_bind, run_loadLanguage] at done
  cases loads : service.registry.load service.engine language with
  | error fault =>
      rw [loads] at done
      cases done
  | ok registry =>
      rw [loads] at done
      exact ⟨registry, rfl, done⟩

theorem settled_of_openAs (done : (openAs path language).run service = (.ok parsed, after)) :
    service.Onward after ∧ after.Settled path language parsed := by
  obtain ⟨registry, loads, parses⟩ := openAs_eq_ok done
  obtain ⟨onward, settled⟩ := settled_of_parseCached parses
  have extended := LanguageRegistry.extends_of_load loads
  exact ⟨⟨onward.store_eq, onward.settings_eq, onward.clock_eq, onward.engine_eq,
    onward.extensions_eq.trans extended.1.extensions⟩, settled⟩

theorem Settled.same_of_openAs (settled : service.Settled path language parsed)
    (done : ((openAs path language).run service).1 = .ok again) : again.Same parsed := by
  have ran : (openAs path language).run service = (.ok again, ((openAs path language).run service).2) :=
    Prod.ext done rfl
  obtain ⟨registry, -, parses⟩ := openAs_eq_ok ran
  exact (settled.setRegistry registry).same_of_parseCached (congrArg Prod.fst parses)

theorem Onward.languageOf?_eq (onward : service.Onward after) (file : String) :
    after.registry.languageOf? file = service.registry.languageOf? file := by
  unfold LanguageRegistry.languageOf?
  rw [onward.extensions_eq]

theorem Onward.run_allowedPath_eq (onward : service.Onward after) (project : Project) (file : String) :
    ((allowedPath project file).run after).1 = ((allowedPath project file).run service).1 := by
  rw [run_allowedPath, run_allowedPath, onward.store_eq, onward.settings_eq]

end Service

end Arborist
