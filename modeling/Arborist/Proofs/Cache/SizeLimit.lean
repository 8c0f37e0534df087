import Mathlib
import Arborist.Proofs.Cache.Limits
import Arborist.Proofs.Cache.Run
import Arborist.Proofs.Number.Rounding

/-!
The size limit of a cache.  A new entry is taken in only after enough old ones have gone, so it never
makes the cache too large.  An entry that takes the place of another is not checked in this way: the
limit is kept exactly as long as no such entry exceeds it.
-/

namespace Arborist

namespace TreeCache

variable {megabytes : Int} {settings : Settings} {cache after : TreeCache}

theorem required_le_evictionGoal (cache : TreeCache) (positive : 1 ≤ megabytes) (required : Int) :
    required ≤ (cache.evictionGoal (.int megabytes) ((megabytes * 1024 * 1024 : Int) : Rat) required).bytes := by
  have tenth : Binary64.ofRat (1 / 10) = .finite (3602879701896397 / 36028797018963968) := by
    decide +kernel
  have cast : (1 : Rat) ≤ megabytes := by exact_mod_cast positive
  have notTiny : (Binary64.finite megabytes).lt (Binary64.ofRat (1 / 10)) = false := by
    simp only [tenth, Binary64.lt, Binary64.toRat?, decide_eq_false_iff_not, not_lt]
    linarith
  have notSmall : ¬ ((megabytes * 1024 * 1024 : Int) : Rat) < 10 * 1024 := by
    push_cast
    linarith
  have limitNonneg : (0 : Rat) ≤ ((megabytes * 1024 * 1024 : Int) : Rat) := by
    push_cast
    linarith
  have fifth := Binary64.towardZero_mul_nonneg limitNonneg (by norm_num : (0 : Rat) ≤ 1 / 5)
  simp only [evictionGoal, Value.number?, notTiny, notSmall, decide_false, Bool.or_self,
    Bool.false_eq_true, if_false]
  split
  · simpa using fifth
  · exact le_refl required

theorem size_foldl_remove_le (taken : List CacheEntry) (cache : TreeCache) :
    (taken.foldl remove cache).size ≤ cache.size := by
  rw [size_foldl_remove]
  omega

theorem size_markModified (cache : TreeCache) (key : String) :
    (cache.markModified key).size = cache.size := by
  unfold markModified
  split <;> rfl

theorem size_evict_le {required : Int} (done : cache.evict settings required = .ok after) :
    after.size ≤ cache.size := by
  obtain ⟨limit, -, ⟨rfl, -⟩ | ⟨rfl, -⟩⟩ := evict_eq_ok done
  · exact Int.le_refl _
  · exact size_foldl_remove_le _ cache

/-- After an eviction there is room for what is required, if the limit has any for it. -/
theorem Balanced.size_evict_add_le (balanced : cache.Balanced) (positive : 1 ≤ megabytes)
    (limited : cache.sizeLimit settings = .int megabytes) {required : Int}
    (within : cache.size ≤ megabytes * 1024 * 1024) (fits : required ≤ megabytes * 1024 * 1024)
    (done : cache.evict settings required = .ok after) :
    after.size + required ≤ megabytes * 1024 * 1024 := by
  obtain ⟨limit, limitOk, outcome⟩ := evict_eq_ok done
  rw [limited, bytesOf_int] at limitOk
  cases limitOk
  rcases outcome with ⟨rfl, room | none⟩ | ⟨rfl, -⟩
  · exact_mod_cast room
  · rw [balanced.size_eq, none]
    simpa using fits
  · rw [size_foldl_remove, limited]
    have aimed := required_le_evictionGoal cache positive required
    rcases evicted_eq_or_enough
        (cache.evictionGoal (.int megabytes) ((megabytes * 1024 * 1024 : Int) : Rat) required) 0 0
        (byAge cache.entries) with all | ⟨enough, -⟩
    · rw [all, balanced.size_eq, totalBytes_eq_of_perm (byAge_perm cache.entries)]
      omega
    · omega

theorem Balanced.size_put_fresh_le (balanced : cache.Balanced) (positive : 1 ≤ megabytes)
    (limited : cache.sizeLimit settings = .int megabytes) (within : cache.size ≤ megabytes * 1024 * 1024)
    {now : Binary64} {key : String} {tree : Tree} {source : ByteArray} (fresh : cache.find? key = none)
    (done : cache.put settings now key tree source = .ok after) :
    after.size ≤ megabytes * 1024 * 1024 := by
  obtain ⟨limit, limitOk, outcome⟩ := put_eq_ok done
  rw [limited, bytesOf_int] at limitOk
  cases limitOk
  rcases outcome with ⟨rfl, -⟩ | ⟨-, old, found, -⟩ | ⟨fits, -, room, ready, rfl⟩
  · exact within
  · rw [fresh] at found
    cases found
  · have fits : (source.size : Int) ≤ megabytes * 1024 * 1024 := by exact_mod_cast fits
    have enough : room.size + source.size ≤ megabytes * 1024 * 1024 := by
      rcases ready with ⟨rfl, free⟩ | ⟨evictOk, -⟩
      · exact_mod_cast free
      · exact balanced.size_evict_add_le positive limited within fits evictOk
    simpa [stored] using enough

theorem put_present {cache : TreeCache} (positive : 1 ≤ megabytes)
    (limited : cache.sizeLimit settings = .int megabytes) {now : Binary64} {key : String} {tree : Tree}
    {source : ByteArray} {old : CacheEntry} (found : cache.find? key = some old) :
    cache.put settings now key tree source =
      .ok (if (source.size : Int) ≤ megabytes * 1024 * 1024 then
        cache.stored ⟨key, tree, source, now⟩ old.source.size else cache) := by
  have notSmall : ¬ ((megabytes * 1024 * 1024 : Int) : Rat) ≤ 1024 := by
    have : ¬ megabytes * 1024 * 1024 ≤ 1024 := by omega
    exact_mod_cast this
  have compare : ((megabytes * 1024 * 1024 : Int) : Rat) < (source.size : Int) ↔
      ¬ (source.size : Int) ≤ megabytes * 1024 * 1024 := by
    rw [Int.not_le]
    exact_mod_cast Iff.rfl
  unfold put
  rw [limited, bytesOf_int]
  simp only [Outcome.ok_bind, found, Outcome.pure_eq_ok, notSmall, compare, decide_false, Bool.false_or,
    decide_eq_true_eq]
  split
  next => rfl
  next fits => rw [if_pos (not_not.mp fits), stored]

end TreeCache

namespace Service

/-- The size the cache has once a source stands in the place of the one that it holds for a file. -/
def replacedSize? (service : Service) (path : Path) (language : String) (source : ByteArray) :
    Option Int := do
  let key ← service.keyAt? path language
  let old ← service.cache.find? key
  return service.cache.size - old.source.size + source.size

theorem replacedSize?_eq {service : Service} {path : Path} {language key : String} {old : CacheEntry}
    (source : ByteArray) (keyed : service.keyAt? path language = some key)
    (found : service.cache.find? key = some old) :
    service.replacedSize? path language source =
      some (service.cache.size - old.source.size + source.size) := by
  simp [replacedSize?, keyed, found]

theorem exists_of_replacedSize? {service : Service} {path : Path} {language : String}
    {source : ByteArray} {size : Int}
    (replaced : service.replacedSize? path language source = some size) :
      ∃ key old, service.keyAt? path language = some key ∧ service.cache.find? key = some old ∧
        service.cache.size - old.source.size + source.size = size := by
  simpa [replacedSize?, Option.bind_eq_some_iff] using replaced

/-- A service whose cache is in use with a limit of whole megabytes, and whose books are right. -/
structure Limited (megabytes : Int) (service : Service) : Prop where
  enabled : service.cache.isEnabled service.settings = true
  limit_eq : service.cache.sizeLimit service.settings = .int megabytes
  balanced : service.cache.Balanced

end Service

namespace CacheStep

variable {step : CacheStep}

def changesLimit : CacheStep → Bool
  | setEnabled _ | setMaxSizeMb _ | configure _ => true
  | _ => false

/-- Whether a step replaces an entry by one with which the cache exceeds a limit. -/
def overfills (limit : Int) (service : Service) : CacheStep → Bool
  | put path language _ source =>
      source.size ≤ limit && (service.replacedSize? path language source).any (limit < ·)
  | update path language _ source => (service.replacedSize? path language source).any (limit < ·)
  | _ => false

theorem Effect.sameLimits {service after : Service} (effect : Effect service step after)
    (keeps : step.changesLimit = false) :
    after.settings = service.settings ∧ after.cache.enabled = service.cache.enabled ∧
      after.cache.maxSizeMb = service.cache.maxSizeMb := by
  have ofCache {cache : TreeCache} (same : service.cache.SameLimits cache) :
      service.settings = service.settings ∧ cache.enabled = service.cache.enabled ∧
        cache.maxSizeMb = service.cache.maxSizeMb := ⟨rfl, same.enabled, same.maxSizeMb⟩
  cases effect with
  | nothing => exact ⟨rfl, rfl, rfl⟩
  | expired => exact ⟨rfl, rfl, rfl⟩
  | stored _ done => exact ofCache (.put done)
  | updated _ done => exact ofCache (.update done)
  | marked => exact ofCache (.markModified _ _)
  | evicted done => exact ofCache (.evict done)
  | cleared => exact ⟨rfl, rfl, rfl⟩
  | invalidated => exact ofCache (.foldl_remove _ _)
  | switched => cases keeps
  | resized => cases keeps
  | retimed => exact ⟨rfl, rfl, rfl⟩
  | configured => cases keeps
  | clockMoved => exact ⟨rfl, rfl, rfl⟩
  | filesChanged => exact ⟨rfl, rfl, rfl⟩

variable {megabytes : Int} {service : Service} (limited : service.Limited megabytes)

include limited

theorem apply_limited (keeps : step.changesLimit = false) :
    (apply service step).Limited megabytes := by
  have effect := effect_apply service step
  obtain ⟨sameSettings, sameSwitch, sameSize⟩ := effect.sameLimits keeps
  exact {
    enabled := by rw [sameSettings, TreeCache.isEnabled_congr sameSwitch, limited.enabled]
    limit_eq := by rw [sameSettings, TreeCache.sizeLimit_congr sameSwitch sameSize, limited.limit_eq]
    balanced := effect.balanced limited.balanced }

theorem size_apply_le (positive : 1 ≤ megabytes) (within : service.cache.size ≤ megabytes * 1024 * 1024)
    (harmless : step.overfills (megabytes * 1024 * 1024) service = false) :
    (apply service step).cache.size ≤ megabytes * 1024 * 1024 := by
  have effect := effect_apply service step
  generalize apply service step = after at effect
  cases effect with
  | nothing => exact within
  | expired =>
      simp only [TreeCache.remove]
      omega
  | @stored path language tree source key cache keyed done =>
      cases found : service.cache.find? key with
      | none =>
          exact limited.balanced.size_put_fresh_le positive limited.limit_eq within found done
      | some old =>
          rw [TreeCache.put_present positive limited.limit_eq found] at done
          cases done
          have replaced := Service.replacedSize?_eq source keyed found
          simp only [overfills, replaced, Option.any_some] at harmless
          split
          next fits => simpa [fits, TreeCache.stored] using harmless
          next => exact within
  | @updated path language tree source key cache keyed done =>
      cases found : service.cache.find? key with
      | none =>
          rw [TreeCache.update_fresh found, if_pos limited.enabled] at done
          exact limited.balanced.size_put_fresh_le positive limited.limit_eq within found done
      | some old =>
          rw [TreeCache.update_present found] at done
          cases done
          have replaced := Service.replacedSize?_eq source keyed found
          simpa [overfills, replaced, TreeCache.stored] using harmless
  | marked => rwa [TreeCache.size_markModified]
  | evicted done => exact Int.le_trans (TreeCache.size_evict_le done) within
  | cleared =>
      simp only [TreeCache.clear]
      omega
  | invalidated => exact Int.le_trans (TreeCache.size_foldl_remove_le _ _) within
  | switched => exact within
  | resized => exact within
  | retimed => exact within
  | configured => exact within
  | clockMoved => exact within
  | filesChanged => exact within

theorem lt_size_apply (positive : 1 ≤ megabytes) (overfull : step.overfills (megabytes * 1024 * 1024) service = true) :
    megabytes * 1024 * 1024 < (apply service step).cache.size := by
  cases step with
  | put path language tree source =>
      simp only [overfills, Bool.and_eq_true, decide_eq_true_eq, Option.any_eq_true] at overfull
      obtain ⟨fits, size, replaced, exceeds⟩ := overfull
      obtain ⟨key, old, keyed, found, rfl⟩ := Service.exists_of_replacedSize? replaced
      simp only [apply, action, Service.run_cachePut, limited.enabled, keyed,
        TreeCache.put_present positive limited.limit_eq found, if_pos fits]
      exact exceeds
  | update path language tree source =>
      simp only [overfills, Option.any_eq_true, decide_eq_true_eq] at overfull
      obtain ⟨size, replaced, exceeds⟩ := overfull
      obtain ⟨key, old, keyed, found, rfl⟩ := Service.exists_of_replacedSize? replaced
      simp only [apply, action, Service.run_cacheUpdate, keyed, TreeCache.update_present found]
      exact exceeds
  | _ => cases overfull

end CacheStep

namespace Service

theorem Limited.runCache {megabytes : Int} {service : Service} (limited : service.Limited megabytes)
    {steps : List CacheStep} (keep : ∀ step ∈ steps, step.changesLimit = false) :
    (service.runCache steps).Limited megabytes := by
  induction steps generalizing service with
  | nil => exact limited
  | cons step rest ih =>
      apply ih (step.apply_limited limited (keep step (by simp)))
      intro later member
      exact keep later (by simp [member])

/-- A cache that is empty and in use stays within its limit throughout a run that does not change
the limit exactly if no step of the run puts, in the place of an entry, one too large for the rest. -/
theorem size_within_limit_iff (megabytes : Int) (positive : 1 ≤ megabytes) (service : Service)
    (enabled : service.cache.isEnabled service.settings = true)
    (limit_eq : service.cache.sizeLimit service.settings = .int megabytes) (steps : List CacheStep)
    (keep : ∀ step ∈ steps, step.changesLimit = false) :
    let start := { service with cache := service.cache.clear }
    (∀ known, known <+: steps → (start.runCache known).cache.size ≤ megabytes * 1024 * 1024) ↔
      ∀ known step, known ++ [step] <+: steps →
        step.overfills (megabytes * 1024 * 1024) (start.runCache known) = false := by
  intro start
  have limited : start.Limited megabytes := ⟨enabled, limit_eq, .clear service.cache⟩
  have limitedAfter : ∀ {known}, known <+: steps → (start.runCache known).Limited megabytes :=
    fun early => limited.runCache fun step member => keep step (early.subset member)
  constructor
  · intro within known step early
    cases overfull : step.overfills (megabytes * 1024 * 1024) (start.runCache known) with
    | false => rfl
    | true =>
        have exceeds := step.lt_size_apply (limitedAfter ((List.prefix_append _ _).trans early))
          positive overfull
        have stays := within _ early
        rw [runCache_concat] at stays
        omega
  · intro harmless known early
    -- induction on the end of the part that has been run
    induction known using List.reverseRecOn with
    | nil =>
        simp only [runCache, List.foldl_nil, start, TreeCache.clear]
        omega
    | append_singleton before step ih =>
        have earlier : before <+: steps := (List.prefix_append _ _).trans early
        rw [runCache_concat]
        exact step.size_apply_le (limitedAfter earlier) positive (ih earlier)
          (harmless before step early)

def megabyteService : Service :=
  { store := { root := [("f", .file .empty (.finite 0))] }
    settings := { cache := .fields { maxSizeMb := .int 1 } } }

def twoMillionBytes : ByteArray := ⟨Array.replicate 2000000 0⟩

def keepFile : CacheStep := .put (.absolute ["f"]) "p" default .empty

def growFile : CacheStep := .update (.absolute ["f"]) "p" default twoMillionBytes

/-- The tree of a file that is kept, updated to one of two million bytes, exceeds the megabyte. -/
theorem update_exceeds_limit :
    megabyteService.cache.isEnabled megabyteService.settings = true ∧
    megabyteService.cache.sizeLimit megabyteService.settings = .int 1 ∧
    ¬ ∀ known, known <+: [keepFile, growFile] →
      (megabyteService.runCache known).cache.size ≤ 1 * 1024 * 1024 := by
  have enabled : megabyteService.cache.isEnabled megabyteService.settings = true := rfl
  have limit_eq : megabyteService.cache.sizeLimit megabyteService.settings = .int 1 := rfl
  refine ⟨enabled, limit_eq, fun within => ?_⟩
  have harmless := (size_within_limit_iff 1 (by decide) megabyteService enabled limit_eq
    [keepFile, growFile] (by decide)).mp within [keepFile] growFile List.prefix_rfl
  have keyed : (megabyteService.runCache [keepFile]).keyAt? (.absolute ["f"]) "p" = some "p:/f:0.0" := by
    cbv
  have stored : (megabyteService.runCache [keepFile]).cache =
      megabyteService.cache.stored ⟨"p:/f:0.0", default, .empty, megabyteService.clock⟩ 0 := by
    cbv
  have found : (megabyteService.runCache [keepFile]).cache.find? "p:/f:0.0" =
      some ⟨"p:/f:0.0", default, .empty, megabyteService.clock⟩ := by
    rw [stored]
    cbv
  have replaced := replacedSize?_eq twoMillionBytes keyed found
  have size : twoMillionBytes.size = 2000000 := Array.size_replicate
  rw [stored, size] at replaced
  have overfull : growFile.overfills (1 * 1024 * 1024) (megabyteService.runCache [keepFile]) = true := by
    simp only [growFile, CacheStep.overfills, replaced]
    rfl
  cases overfull.symm.trans harmless

end Service

end Arborist
