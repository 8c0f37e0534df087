import Arborist.Proofs.Cache.Accounting
import Arborist.Proofs.Service.ActionRun
import Arborist.Service.Parsing

/-!
Runs of a cache.  A step is one operation on the cache of the service, or a change of what surrounds
it: the settings, the clock, the files.  The books of a new cache are right after every run.
-/

namespace Arborist

namespace Service

def keyAt? (service : Service) (path : Path) (language : String) : Option String :=
  (service.store.fileAt? path).map fun (_, modified) => TreeCache.keyOf language path.text modified

def replaceCache (service : Service) : Except Fault TreeCache → Except Fault Unit × Service
  | .ok cache => (.ok (), { service with cache })
  | .error fault => (.error fault, service)

theorem run_cacheKey? (service : Service) (path : Path) (language : String) :
    (cacheKey? path language).run service = (.ok (service.keyAt? path language), service) := rfl

theorem run_cacheGet (service : Service) (path : Path) (language : String) :
    (cacheGet path language).run service =
      match service.cache.isEnabled service.settings, service.keyAt? path language with
      | true, some key =>
          match service.cache.get service.settings service.clock key with
          | .ok (entry, cache) =>
              (.ok (entry.map fun entry => ⟨entry.tree, entry.source⟩), { service with cache })
          | .error fault => (.error fault, service)
      | _, _ => (.ok none, service) := by
  unfold cacheGet
  rw [Action.run_bind, Action.run_get]
  dsimp only
  cases enabled : service.cache.isEnabled service.settings with
  | false => simp
  | true =>
      simp only [Bool.not_true, Bool.false_eq_true, if_false, Action.run_bind, run_cacheKey?]
      cases found : service.keyAt? path language with
      | none => rfl
      | some key =>
          simp only [Action.run_bind, Action.run_lift]
          cases service.cache.get service.settings service.clock key with
          | error fault => rfl
          | ok result => rfl

theorem exists_cache_of_cacheGet (service : Service) (path : Path) (language : String) :
    ∃ cache, ((cacheGet path language).run service).2 = { service with cache } := by
  rw [run_cacheGet]
  split
  · split
    · exact ⟨_, rfl⟩
    · exact ⟨service.cache, rfl⟩
  · exact ⟨service.cache, rfl⟩

theorem exists_key_of_cacheGet {service : Service} {path : Path} {language : String} {parsed : Parsed}
    (got : ((cacheGet path language).run service).1 = .ok (some parsed)) :
    ∃ key entry, service.cache.isEnabled service.settings = true ∧ service.keyAt? path language = some key ∧
      service.cache.get service.settings service.clock key = .ok (some entry, service.cache) ∧
      parsed = ⟨entry.tree, entry.source⟩ := by
  rw [run_cacheGet] at got
  split at got
  next key enabled keyed =>
    split at got
    next result cache outcome =>
      obtain ⟨entry, rfl, same⟩ := Option.map_eq_some_iff.mp (Except.ok.inj got)
      rcases TreeCache.get_eq_ok outcome with ⟨rfl, -⟩ | ⟨expired, -, -, -, missing⟩
      · exact ⟨key, entry, enabled, keyed, outcome, same.symm⟩
      · cases missing
    next => cases got
  next => cases got

theorem exists_entry_of_cacheGet {service : Service} {path : Path} {language : String} {parsed : Parsed}
    (got : ((cacheGet path language).run service).1 = .ok (some parsed)) :
    ∃ content modified entry, service.store.fileAt? path = some (content, modified) ∧
      entry ∈ service.cache.entries ∧ entry.key = TreeCache.keyOf language path.text modified ∧
      parsed = ⟨entry.tree, entry.source⟩ ∧
      (Value.float (service.clock.sub entry.stamp)).exceeds
        (service.cache.timeToLive service.settings) = .ok false := by
  obtain ⟨key, entry, -, keyed, outcome, same⟩ := exists_key_of_cacheGet got
  obtain ⟨⟨content, modified⟩, found, rfl⟩ := Option.map_eq_some_iff.mp keyed
  rcases TreeCache.get_eq_ok outcome with ⟨-, held, young⟩ | ⟨expired, -, -, -, missing⟩
  · obtain ⟨member, key_eq⟩ := TreeCache.find?_eq_some_mem held.symm
    exact ⟨content, modified, entry, found, member, key_eq, same, young entry rfl⟩
  · cases missing

theorem cacheGet_of_find? {service : Service} {path : Path} {language key : String} {entry : CacheEntry}
    (enabled : service.cache.isEnabled service.settings = true)
    (keyed : service.keyAt? path language = some key) (found : service.cache.find? key = some entry)
    (young : (Value.float (service.clock.sub entry.stamp)).exceeds
      (service.cache.timeToLive service.settings) = .ok false) :
    ((cacheGet path language).run service).1 = .ok (some ⟨entry.tree, entry.source⟩) := by
  have got : service.cache.get service.settings service.clock key = .ok (some entry, service.cache) := by
    unfold TreeCache.get
    rw [found]
    dsimp only
    rw [young]
    rfl
  rw [run_cacheGet, enabled, keyed]
  simp only [got]
  rfl

theorem run_cachePut (service : Service) (path : Path) (language : String) (tree : Tree)
    (source : ByteArray) :
    (cachePut path language tree source).run service =
      match service.cache.isEnabled service.settings, service.keyAt? path language with
      | true, some key =>
          service.replaceCache (service.cache.put service.settings service.clock key tree source)
      | _, _ => (.ok (), service) := by
  unfold cachePut
  rw [Action.run_bind, Action.run_get]
  dsimp only
  cases enabled : service.cache.isEnabled service.settings with
  | false => simp
  | true =>
      simp only [Bool.not_true, Bool.false_eq_true, if_false, Action.run_bind, run_cacheKey?]
      cases found : service.keyAt? path language with
      | none => rfl
      | some key =>
          simp only [Action.run_bind, Action.run_lift]
          cases service.cache.put service.settings service.clock key tree source with
          | error fault => rfl
          | ok cache => rfl

theorem run_cacheUpdate (service : Service) (path : Path) (language : String) (tree : Tree)
    (source : ByteArray) :
    (cacheUpdate path language tree source).run service =
      match service.keyAt? path language with
      | some key =>
          service.replaceCache (service.cache.update service.settings service.clock key tree source)
      | none => (.ok (), service) := by
  unfold cacheUpdate
  rw [Action.run_bind, run_cacheKey?]
  cases service.keyAt? path language with
  | none => rfl
  | some key =>
      simp only [Action.run_bind, Action.run_get, Action.run_lift]
      cases service.cache.update service.settings service.clock key tree source with
      | error fault => rfl
      | ok cache => rfl

theorem run_cacheMarkModified (service : Service) (path : Path) (language : String) :
    (cacheMarkModified path language).run service =
      match service.keyAt? path language with
      | some key => (.ok (), { service with cache := service.cache.markModified key })
      | none => (.ok (), service) := by
  unfold cacheMarkModified
  rw [Action.run_bind, run_cacheKey?]
  cases service.keyAt? path language <;> rfl

theorem run_cacheIsModified (service : Service) (path : Path) (language : String) :
    (cacheIsModified path language).run service =
      (.ok ((service.keyAt? path language).any service.cache.isModified), service) := by
  unfold cacheIsModified
  rw [Action.run_bind, run_cacheKey?]
  cases service.keyAt? path language <;> rfl

theorem run_cacheEvict (service : Service) (required : Int) :
    (cacheEvict required).run service =
      service.replaceCache (service.cache.makeRoom service.settings required) := by
  unfold cacheEvict
  rw [Action.run_bind, Action.run_get]
  simp only [Action.run_bind, Action.run_lift]
  cases service.cache.makeRoom service.settings required with
  | error fault => rfl
  | ok cache => rfl

end Service

inductive CacheStep where
  | get (path : Path) (language : String)
  | put (path : Path) (language : String) (tree : Tree) (source : ByteArray)
  | update (path : Path) (language : String) (tree : Tree) (source : ByteArray)
  | markModified (path : Path) (language : String)
  | isModified (path : Path) (language : String)
  | evict (required : Int)
  | invalidate (path : Option Path)
  | setEnabled (enabled : Value)
  | setMaxSizeMb (maxSizeMb : Value)
  | setTtlSeconds (ttlSeconds : Value)
  | configure (settings : Settings)
  | moveClock (clock : Binary64)
  | changeFiles (store : Store)

namespace CacheStep

def action : CacheStep → Action Unit
  | get path language => do let _ ← Service.cacheGet path language
  | put path language tree source => Service.cachePut path language tree source
  | update path language tree source => Service.cacheUpdate path language tree source
  | markModified path language => Service.cacheMarkModified path language
  | isModified path language => do let _ ← Service.cacheIsModified path language
  | evict required => Service.cacheEvict required
  | invalidate path => Service.cacheInvalidate path
  | setEnabled enabled => modify fun service => { service with cache := { service.cache with enabled } }
  | setMaxSizeMb maxSizeMb =>
      modify fun service => { service with cache := { service.cache with maxSizeMb } }
  | setTtlSeconds ttlSeconds =>
      modify fun service => { service with cache := { service.cache with ttlSeconds } }
  | configure settings => modify fun service => { service with settings }
  | moveClock clock => modify fun service => { service with clock }
  | changeFiles store => modify fun service => { service with store }

def apply (service : Service) (step : CacheStep) : Service := (step.action.run service).2

/-- What a step can do.  One that fails, or that finds nothing to do, leaves all as it is. -/
inductive Effect (service : Service) : CacheStep → Service → Prop where
  | nothing (step : CacheStep) : Effect service step service
  | expired {path language key entry} (keyed : service.keyAt? path language = some key)
      (found : service.cache.find? key = some entry) :
      Effect service (get path language) { service with cache := service.cache.remove entry }
  | stored {path language tree source key cache} (keyed : service.keyAt? path language = some key)
      (done : service.cache.put service.settings service.clock key tree source = .ok cache) :
      Effect service (put path language tree source) { service with cache }
  | updated {path language tree source key cache} (keyed : service.keyAt? path language = some key)
      (done : service.cache.update service.settings service.clock key tree source = .ok cache) :
      Effect service (update path language tree source) { service with cache }
  | marked {path language key} (keyed : service.keyAt? path language = some key) :
      Effect service (markModified path language)
        { service with cache := service.cache.markModified key }
  | evicted {required cache} (done : service.cache.evict service.settings required = .ok cache) :
      Effect service (evict required) { service with cache }
  | cleared : Effect service (invalidate none) { service with cache := service.cache.clear }
  | invalidated (path : Path) :
      Effect service (invalidate (some path))
        { service with cache := service.cache.invalidate path.text }
  | switched (enabled : Value) :
      Effect service (setEnabled enabled) { service with cache := { service.cache with enabled } }
  | resized (maxSizeMb : Value) :
      Effect service (setMaxSizeMb maxSizeMb)
        { service with cache := { service.cache with maxSizeMb } }
  | retimed (ttlSeconds : Value) :
      Effect service (setTtlSeconds ttlSeconds)
        { service with cache := { service.cache with ttlSeconds } }
  | configured (settings : Settings) : Effect service (configure settings) { service with settings }
  | clockMoved (clock : Binary64) : Effect service (moveClock clock) { service with clock }
  | filesChanged (store : Store) : Effect service (changeFiles store) { service with store }

theorem effect_replaceCache {service : Service} {step : CacheStep} {outcome : Except Fault TreeCache}
    (effect : ∀ {cache}, outcome = .ok cache → Effect service step { service with cache }) :
    Effect service step (service.replaceCache outcome).2 := by
  cases outcome with
  | error fault => exact .nothing step
  | ok cache => exact effect rfl

theorem effect_apply (service : Service) (step : CacheStep) :
    Effect service step (apply service step) := by
  cases step with
  | get path language =>
      simp only [apply, action, bind_pure_comp, Action.run_map, Service.run_cacheGet]
      split
      next key _ keyed =>
        cases outcome : service.cache.get service.settings service.clock key with
        | error fault => exact .nothing _
        | ok result =>
            obtain ⟨entry, cache⟩ := result
            rcases TreeCache.get_eq_ok outcome with ⟨rfl, -⟩ | ⟨old, found, -, rfl, -⟩
            · exact .nothing _
            · exact .expired keyed found
      next => exact .nothing _
  | put path language tree source =>
      simp only [apply, action, Service.run_cachePut]
      split
      next keyed => exact effect_replaceCache (.stored keyed)
      next => exact .nothing _
  | update path language tree source =>
      simp only [apply, action, Service.run_cacheUpdate]
      split
      next keyed => exact effect_replaceCache (.updated keyed)
      next => exact .nothing _
  | markModified path language =>
      simp only [apply, action, Service.run_cacheMarkModified]
      split
      next keyed => exact .marked keyed
      next => exact .nothing _
  | isModified path language =>
      simp only [apply, action, bind_pure_comp, Action.run_map, Service.run_cacheIsModified]
      exact .nothing _
  | evict required =>
      simp only [apply, action, Service.run_cacheEvict]
      exact effect_replaceCache fun done => .evicted (TreeCache.evict_eq_ok_of_makeRoom done)
  | invalidate path =>
      cases path with
      | none => exact .cleared
      | some path => exact .invalidated path
  | setEnabled enabled => exact .switched enabled
  | setMaxSizeMb maxSizeMb => exact .resized maxSizeMb
  | setTtlSeconds ttlSeconds => exact .retimed ttlSeconds
  | configure settings => exact .configured settings
  | moveClock clock => exact .clockMoved clock
  | changeFiles store => exact .filesChanged store

theorem Effect.balanced {service after : Service} {step : CacheStep}
    (effect : Effect service step after) (balanced : service.cache.Balanced) : after.cache.Balanced := by
  cases effect with
  | nothing => exact balanced
  | expired _ found => exact balanced.remove (TreeCache.find?_eq_some_mem found).1
  | stored _ done => exact balanced.put done
  | updated _ done => exact balanced.update done
  | marked => exact balanced.markModified _
  | evicted done => exact balanced.evict done
  | cleared => exact TreeCache.Balanced.clear service.cache
  | invalidated path => exact balanced.invalidate path.text
  | switched => exact balanced.setLimits _ _ _
  | resized => exact balanced.setLimits _ _ _
  | retimed => exact balanced.setLimits _ _ _
  | configured => exact balanced
  | clockMoved => exact balanced
  | filesChanged => exact balanced

end CacheStep

def Service.runCache (service : Service) (steps : List CacheStep) : Service :=
  steps.foldl CacheStep.apply service

theorem Service.runCache_concat (service : Service) (steps : List CacheStep) (step : CacheStep) :
    service.runCache (steps ++ [step]) = CacheStep.apply (service.runCache steps) step := by
  simp [Service.runCache]

theorem Service.runCache_balanced {service : Service} (balanced : service.cache.Balanced)
    (steps : List CacheStep) : (service.runCache steps).cache.Balanced := by
  induction steps generalizing service with
  | nil => exact balanced
  | cons step rest ih => exact ih ((CacheStep.effect_apply service step).balanced balanced)

/-- After every run of a new cache its size is the sum of the sizes of its sources, the keys that have
a flag are the keys that have an entry, and only a file with an entry is told to be changed. -/
theorem Service.runCache_accounts (service : Service) (maxSizeMb ttlSeconds : Value)
    (steps : List CacheStep) :
    let after := Service.runCache
      { service with cache := TreeCache.withLimits maxSizeMb ttlSeconds } steps
    after.cache.size = (after.cache.entries.map fun entry => entry.source.size).sum ∧
      0 ≤ after.cache.size ∧
      (after.cache.entries.map CacheEntry.key).Nodup ∧
      (∀ key, key ∈ after.cache.modified.map Prod.fst ↔ key ∈ after.cache.entries.map CacheEntry.key) ∧
      ∀ path language, ((Service.cacheIsModified path language).run after).1 = .ok true →
        ∃ content modified, after.store.fileAt? path = some (content, modified) ∧
          ∃ entry ∈ after.cache.entries, entry.key = TreeCache.keyOf language path.text modified := by
  intro after
  have balanced : after.cache.Balanced :=
    Service.runCache_balanced (TreeCache.balanced_withLimits maxSizeMb ttlSeconds) steps
  refine ⟨balanced.size_eq, ?_, balanced.distinct, balanced.mem_flags, ?_⟩
  · rw [balanced.size_eq]
    exact Int.natCast_nonneg _
  · intro path language told
    simp only [Service.run_cacheIsModified, Except.ok.injEq, Option.any_eq_true] at told
    obtain ⟨key, keyed, flagged⟩ := told
    obtain ⟨⟨content, modified⟩, found, rfl⟩ := Option.map_eq_some_iff.mp keyed
    obtain ⟨entry, present⟩ := Option.isSome_iff_exists.mp (balanced.isModified_isSome flagged)
    obtain ⟨member, same⟩ := TreeCache.find?_eq_some_mem present
    exact ⟨content, modified, found, entry, member, same⟩

end Arborist
