import Arborist.Proofs.Cache.Accounting

/-!
The switch and the limits of a cache.  No operation changes them, and where the limits in force are
numbers no operation fails.
-/

namespace Arborist.TreeCache

variable {settings : Settings} {cache : TreeCache} {before after : TreeCache} {refuse : String → Fault}
  {limit : Rat}

structure SameLimits (before after : TreeCache) : Prop where
  enabled : after.enabled = before.enabled
  maxSizeMb : after.maxSizeMb = before.maxSizeMb
  ttlSeconds : after.ttlSeconds = before.ttlSeconds

theorem SameLimits.refl (cache : TreeCache) : SameLimits cache cache := ⟨rfl, rfl, rfl⟩

theorem SameLimits.trans {first second third : TreeCache} (left : SameLimits first second)
    (right : SameLimits second third) : SameLimits first third :=
  ⟨right.enabled.trans left.enabled, right.maxSizeMb.trans left.maxSizeMb,
    right.ttlSeconds.trans left.ttlSeconds⟩

theorem SameLimits.foldl_remove (taken : List CacheEntry) (cache : TreeCache) :
    SameLimits cache (taken.foldl remove cache) := by
  induction taken generalizing cache with
  | nil => exact .refl cache
  | cons entry rest ih =>
      have removed : SameLimits cache (cache.remove entry) := ⟨rfl, rfl, rfl⟩
      exact removed.trans (ih (cache.remove entry))

theorem SameLimits.evict {cache after : TreeCache} {required : Int}
    (done : cache.evict settings required = .ok after) : SameLimits cache after := by
  obtain ⟨limit, -, ⟨rfl, -⟩ | ⟨rfl, -⟩⟩ := evict_eq_ok done
  · exact .refl _
  · exact .foldl_remove _ cache

theorem SameLimits.put {cache after : TreeCache} {now : Binary64} {key : String} {tree : Tree} {source : ByteArray}
    (done : cache.put settings now key tree source = .ok after) :
    SameLimits cache after := by
  obtain ⟨limit, -, ⟨rfl, -⟩ | ⟨-, old, -, rfl⟩ | ⟨-, -, room, ready, rfl⟩⟩ := put_eq_ok done
  · exact .refl _
  · exact ⟨rfl, rfl, rfl⟩
  · rcases ready with ⟨rfl, -⟩ | ⟨evictOk, -⟩
    · exact ⟨rfl, rfl, rfl⟩
    · exact (SameLimits.evict evictOk).trans ⟨rfl, rfl, rfl⟩

theorem SameLimits.update {cache after : TreeCache} {now : Binary64} {key : String} {tree : Tree} {source : ByteArray}
    (done : cache.update settings now key tree source = .ok after) : SameLimits cache after := by
  cases found : cache.find? key with
  | some old =>
      rw [update_present found] at done
      cases done
      exact ⟨rfl, rfl, rfl⟩
  | none =>
      rw [update_fresh found] at done
      split at done
      · exact .put done
      · cases done
        exact .refl _

theorem SameLimits.markModified (cache : TreeCache) (key : String) :
    SameLimits cache (cache.markModified key) := by
  unfold TreeCache.markModified
  split <;> exact ⟨rfl, rfl, rfl⟩

theorem isEnabled_congr (enabled : after.enabled = before.enabled) (settings : Settings) :
    after.isEnabled settings = before.isEnabled settings := by
  simp [isEnabled, enabled]

theorem sizeLimit_congr (enabled : after.enabled = before.enabled) (maxSizeMb : after.maxSizeMb = before.maxSizeMb)
    (settings : Settings) :
    after.sizeLimit settings = before.sizeLimit settings := by
  simp [sizeLimit, enabled, maxSizeMb]

theorem bytesOf_int (megabytes : Int) (refuse : String → Fault) :
    bytesOf (.int megabytes) refuse = .ok ((megabytes * 1024 * 1024 : Int) : Rat) := by
  simp [bytesOf, Value.toRat?]

/-! Limits that are numbers. -/

theorem bytesOf_eq_ok_of_eq_ok {megabytes : Value} (limitOk : bytesOf megabytes refuse = .ok limit)
    (other : String → Fault) :
    bytesOf megabytes other = .ok limit := by
  cases megabytes with
  | string _ | list _ | bytes _ => cases limitOk
  | _ => exact limitOk

theorem evict_isOk_of_limit (limitOk : bytesOf (cache.sizeLimit settings) refuse = .ok limit) (required : Int) :
    ∃ after, cache.evict settings required = .ok after := by
  unfold TreeCache.evict
  dsimp only
  rw [bytesOf_eq_ok_of_eq_ok limitOk, Outcome.ok_bind]
  split <;> exact ⟨_, rfl⟩

theorem put_isOk_of_limit (limitOk : bytesOf (cache.sizeLimit settings) refuse = .ok limit) (now : Binary64)
    (key : String) (tree : Tree) (source : ByteArray) :
    ∃ after, cache.put settings now key tree source = .ok after := by
  unfold TreeCache.put
  rw [bytesOf_eq_ok_of_eq_ok limitOk, Outcome.ok_bind]
  split
  · exact ⟨_, rfl⟩
  · cases found : cache.find? key with
    | some old => exact ⟨_, rfl⟩
    | none =>
        dsimp only
        split
        · obtain ⟨room, evicted⟩ := evict_isOk_of_limit limitOk source.size
          rw [evicted]
          exact ⟨_, rfl⟩
        · exact ⟨_, rfl⟩

theorem bytesOf_isOk {megabytes : Value} (numeric : megabytes.toRat?.isSome) (refuse : String → Fault) :
    ∃ limit, bytesOf megabytes refuse = .ok limit := by
  obtain ⟨value, denotes⟩ := Option.isSome_iff_exists.mp numeric
  refine ⟨value * 1024 * 1024, ?_⟩
  cases megabytes <;> simp_all [bytesOf, Value.toRat?]

/-- The limits in force, and those that may come into force, are numbers. -/
structure NumericLimits (cache : TreeCache) (settings : Settings) : Prop where
  size : ∀ value, settings.maxSizeMb = .ok value → value.toRat?.isSome
  ownSize : cache.maxSizeMb.toRat?.isSome
  time : ∀ value, settings.ttlSeconds = .ok value → value.number?.isSome
  ownTime : cache.ttlSeconds.number?.isSome

theorem NumericLimits.of_sameLimits (numeric : before.NumericLimits settings) (same : SameLimits before after) :
    after.NumericLimits settings where
  size := numeric.size
  ownSize := by rw [same.maxSizeMb]; exact numeric.ownSize
  time := numeric.time
  ownTime := by rw [same.ttlSeconds]; exact numeric.ownTime

theorem NumericLimits.sizeLimit (numeric : cache.NumericLimits settings) :
    (cache.sizeLimit settings).toRat?.isSome := by
  unfold TreeCache.sizeLimit
  split
  · rfl
  · split
    next value found => exact numeric.size value found
    next => exact numeric.ownSize

theorem NumericLimits.timeToLive (numeric : cache.NumericLimits settings) :
    (cache.timeToLive settings).number?.isSome := by
  unfold TreeCache.timeToLive
  split
  next value found => exact numeric.time value found
  next => exact numeric.ownTime

theorem NumericLimits.put_isOk (numeric : cache.NumericLimits settings) (now : Binary64) (key : String) (tree : Tree)
    (source : ByteArray) : ∃ after, cache.put settings now key tree source = .ok after := by
  obtain ⟨limit, limitOk⟩ := bytesOf_isOk numeric.sizeLimit fun kind => .notComparable "<=" kind "int"
  exact put_isOk_of_limit limitOk now key tree source

theorem NumericLimits.get_isOk (numeric : cache.NumericLimits settings) (now : Binary64) (key : String) :
    ∃ result, cache.get settings now key = .ok result := by
  unfold TreeCache.get
  cases found : cache.find? key with
  | none => exact ⟨_, rfl⟩
  | some entry =>
      obtain ⟨most, number⟩ := Option.isSome_iff_exists.mp numeric.timeToLive
      have compared : (Value.float (now.sub entry.stamp)).exceeds (cache.timeToLive settings) =
          .ok (most.lt (now.sub entry.stamp)) := by
        unfold Value.exceeds
        rw [number]
        rfl
      dsimp only
      rw [compared, Outcome.ok_bind]
      split <;> exact ⟨_, rfl⟩

end Arborist.TreeCache
