import Arborist.Proofs.Cache.Entries
import Arborist.Proofs.Outcome

/-!
The books of a cache: each key stands once, the size is the number of source bytes, and there is a
flag for each entry and for nothing else.  Every operation keeps them.
-/

namespace Arborist.TreeCache

variable {cache : TreeCache} {settings : Settings} {key : String} {now : Binary64} {tree : Tree}
  {source : ByteArray} {entry : CacheEntry} {required : Int}

structure Balanced (cache : TreeCache) : Prop where
  distinct : (keys cache.entries).Nodup
  flagsDistinct : (flagKeys cache.modified).Nodup
  size_eq : cache.size = totalBytes cache.entries
  mem_flags : ∀ key, key ∈ flagKeys cache.modified ↔ key ∈ keys cache.entries

theorem balanced_withLimits (maxSizeMb ttlSeconds : Value) :
    (withLimits maxSizeMb ttlSeconds).Balanced where
  distinct := by simp [withLimits]
  flagsDistinct := by simp [withLimits]
  size_eq := by simp [withLimits]
  mem_flags := by simp [withLimits]

theorem Balanced.clear (cache : TreeCache) : cache.clear.Balanced where
  distinct := by simp [TreeCache.clear]
  flagsDistinct := by simp [TreeCache.clear]
  size_eq := by simp [TreeCache.clear]
  mem_flags := by simp [TreeCache.clear]

theorem Balanced.setLimits (balanced : cache.Balanced) (enabled maxSizeMb ttlSeconds : Value) :
    Balanced { cache with enabled, maxSizeMb, ttlSeconds } where
  distinct := balanced.distinct
  flagsDistinct := balanced.flagsDistinct
  size_eq := balanced.size_eq
  mem_flags := balanced.mem_flags

theorem Balanced.isModified_isSome (balanced : cache.Balanced) (modified : cache.isModified key = true) :
    (cache.find? key).isSome := by
  have flagged : key ∈ flagKeys cache.modified := by
    unfold isModified at modified
    cases found : cache.modified.lookup key with
    | none => simp [found] at modified
    | some flag =>
        obtain ⟨before, after, split, -⟩ := List.lookup_eq_some_iff.mp found
        rw [split]
        simp [flagKeys]
  cases found : cache.find? key with
  | none => exact absurd ((balanced.mem_flags key).mp flagged) (find?_eq_none_iff.mp found)
  | some entry => rfl

theorem Balanced.remove (balanced : cache.Balanced) (member : entry ∈ cache.entries) :
    (cache.remove entry).Balanced where
  distinct := by
    simp only [TreeCache.remove, dropKey, keys_filter_ne]
    exact balanced.distinct.filter _
  flagsDistinct := by
    simp only [TreeCache.remove, dropKey, flagKeys_filter_ne]
    exact balanced.flagsDistinct.filter _
  size_eq := by
    have bytes := totalBytes_filter_ne balanced.distinct member
    have size := balanced.size_eq
    simp only [TreeCache.remove, dropKey]
    omega
  mem_flags := by
    intro key
    simp only [TreeCache.remove, dropKey, keys_filter_ne, flagKeys_filter_ne, List.mem_filter,
      balanced.mem_flags]

theorem entries_foldl_remove (taken : List CacheEntry) (cache : TreeCache) :
    (taken.foldl remove cache).entries =
      cache.entries.filter fun entry => !(keys taken).contains entry.key := by
  induction taken generalizing cache with
  | nil =>
      rw [List.foldl_nil, List.filter_eq_self.mpr]
      simp
  | cons entry rest ih =>
      rw [List.foldl_cons, ih]
      simp only [remove, dropKey, List.filter_filter, keys_cons]
      apply List.filter_congr
      intro other _
      simp only [List.contains_cons, Bool.not_or, bne, Bool.and_comm]

theorem find?_foldl_remove (taken : List CacheEntry) (cache : TreeCache) (key : String) :
    (taken.foldl remove cache).find? key = if key ∈ keys taken then none else cache.find? key := by
  unfold find?
  rw [entries_foldl_remove, List.find?_filter]
  split
  next among =>
    apply List.find?_eq_none.mpr
    intro entry _ both
    simp only [Bool.not_eq_true', List.contains_eq_mem, decide_eq_false_iff_not, beq_iff_eq,
      decide_eq_true_eq] at both
    obtain ⟨outside, rfl⟩ := both
    exact outside among
  next outside =>
    congr 1
    funext entry
    by_cases same : entry.key = key
    · simp [same, outside]
    · simp [same]

theorem lookup_foldl_remove (taken : List CacheEntry) (cache : TreeCache) (key : String) :
    (taken.foldl remove cache).modified.lookup key =
      if key ∈ keys taken then none else cache.modified.lookup key := by
  induction taken generalizing cache with
  | nil => simp
  | cons entry rest ih =>
      rw [List.foldl_cons, ih, keys_cons]
      simp only [remove, dropKey, lookup_filter_ne, List.mem_cons]
      by_cases first : key = entry.key
      · simp [first]
      · simp [first]

theorem size_foldl_remove (taken : List CacheEntry) (cache : TreeCache) :
    (taken.foldl remove cache).size = cache.size - totalBytes taken := by
  induction taken generalizing cache with
  | nil => simp
  | cons entry rest ih =>
      rw [List.foldl_cons, ih]
      simp only [remove, dropKey, totalBytes_cons]
      omega

theorem Balanced.foldl_remove {taken : List CacheEntry} (balanced : cache.Balanced) (distinct : (keys taken).Nodup)
    (members : ∀ entry ∈ taken, entry ∈ cache.entries) :
    (taken.foldl TreeCache.remove cache).Balanced := by
  induction taken generalizing cache with
  | nil => exact balanced
  | cons entry rest ih =>
      simp only [keys_cons, List.nodup_cons] at distinct
      rw [List.foldl_cons]
      apply ih (balanced.remove (members entry (by simp))) distinct.2
      intro other inRest
      have differs : other.key ≠ entry.key :=
        fun same => distinct.1 (mem_keys.mpr ⟨other, inRest, same⟩)
      simp only [TreeCache.remove, dropKey, List.mem_filter, bne_iff_ne]
      exact ⟨members other (by simp [inRest]), differs⟩

theorem Balanced.invalidate (balanced : cache.Balanced) (path : String) :
    (cache.invalidate path).Balanced := by
  apply balanced.foldl_remove
  · exact (List.filter_sublist.map CacheEntry.key).nodup balanced.distinct
  · intro entry member
    exact (List.mem_filter.mp member).1

/-! Eviction. -/

def evicted (goal : EvictionGoal) (freed : Int) (removed : Nat) : List CacheEntry → List CacheEntry
  | [] => []
  | entry :: rest =>
    if goal.bytes ≤ freed + entry.source.size && goal.entries ≤ removed + 1 then [entry]
    else entry :: evicted goal (freed + entry.source.size) (removed + 1) rest

theorem evictUntil_eq_foldl (goal : EvictionGoal) (cache : TreeCache) (freed : Int) (removed : Nat)
    (entries : List CacheEntry) :
    evictUntil goal cache freed removed entries = (evicted goal freed removed entries).foldl remove cache := by
  induction entries generalizing cache freed removed with
  | nil => rfl
  | cons entry rest ih =>
      simp only [evictUntil, evicted]
      split
      · rfl
      · rw [ih]
        rfl

theorem evicted_isPrefix (goal : EvictionGoal) (freed : Int) (removed : Nat)
    (entries : List CacheEntry) : evicted goal freed removed entries <+: entries := by
  induction entries generalizing freed removed with
  | nil => exact List.prefix_rfl
  | cons entry rest ih =>
      unfold evicted
      split
      · simp
      · exact List.cons_prefix_cons.mpr ⟨rfl, ih _ _⟩

theorem evicted_eq_or_enough (goal : EvictionGoal) (freed : Int) (removed : Nat)
    (entries : List CacheEntry) :
    evicted goal freed removed entries = entries ∨
      goal.bytes ≤ freed + totalBytes (evicted goal freed removed entries) ∧
        goal.entries ≤ removed + (evicted goal freed removed entries).length := by
  induction entries generalizing freed removed with
  | nil => exact .inl rfl
  | cons entry rest ih =>
      unfold evicted
      split
      next enough =>
        right
        simpa using enough
      next =>
        rcases ih (freed + entry.source.size) (removed + 1) with all | ⟨bytes, count⟩
        · left
          rw [all]
        · right
          simp only [totalBytes_cons, List.length_cons]
          omega

theorem byAge_perm (entries : List CacheEntry) : (byAge entries).Perm entries :=
  List.mergeSort_perm entries _

/-- What an eviction does: nothing, or it removes entries from the old end. -/
theorem evict_eq_ok {cache after : TreeCache} (done : cache.evict settings required = .ok after) :
    ∃ limit, bytesOf (cache.sizeLimit settings) (fun kind => .notComparable "<=" "int" kind) = .ok limit ∧
      (after = cache ∧ (((cache.size + required : Int) : Rat) ≤ limit ∨ cache.entries = []) ∨
        after = (evicted (cache.evictionGoal (cache.sizeLimit settings) limit required) 0 0
          (byAge cache.entries)).foldl remove cache ∧
          ¬ ((cache.size + required : Int) : Rat) ≤ limit ∧ cache.entries ≠ []) := by
  unfold evict at done
  obtain ⟨limit, limitOk, rest⟩ := Outcome.bind_eq_ok_iff.mp done
  refine ⟨limit, limitOk, ?_⟩
  split at rest
  next room =>
    cases rest
    left
    simpa using room
  next full =>
    cases rest
    right
    rw [evictUntil_eq_foldl]
    simpa using full

theorem evict_eq_ok_of_makeRoom {cache after : TreeCache} (done : cache.makeRoom settings required = .ok after) :
    cache.evict settings required = .ok after := by
  unfold makeRoom at done
  obtain ⟨limit, -, rest⟩ := Outcome.bind_eq_ok_iff.mp done
  split at rest
  · cases rest
  · exact rest

theorem Balanced.evict {cache after : TreeCache} (balanced : cache.Balanced)
    (done : cache.evict settings required = .ok after) : after.Balanced := by
  obtain ⟨limit, -, ⟨rfl, -⟩ | ⟨rfl, -⟩⟩ := evict_eq_ok done
  · exact balanced
  · have starts := evicted_isPrefix (cache.evictionGoal (cache.sizeLimit settings) limit required) 0 0
      (byAge cache.entries)
    have sameEntries := byAge_perm cache.entries
    apply balanced.foldl_remove
    · have distinct : (keys (byAge cache.entries)).Nodup :=
        (sameEntries.map CacheEntry.key).nodup_iff.mpr balanced.distinct
      exact (starts.sublist.map CacheEntry.key).nodup distinct
    · intro entry member
      exact sameEntries.subset (starts.subset member)

theorem entries_sublist_of_foldl_remove (taken : List CacheEntry) (cache : TreeCache) :
    (taken.foldl remove cache).entries.Sublist cache.entries := by
  rw [entries_foldl_remove]
  exact List.filter_sublist

theorem entries_sublist_of_evict {cache after : TreeCache} (done : cache.evict settings required = .ok after) :
    after.entries.Sublist cache.entries := by
  obtain ⟨limit, -, ⟨rfl, -⟩ | ⟨rfl, -⟩⟩ := evict_eq_ok done
  · exact List.Sublist.refl _
  · exact entries_sublist_of_foldl_remove _ cache

/-! Storing. -/

def stored (cache : TreeCache) (entry : CacheEntry) (replaced : Nat) : TreeCache :=
  { cache with
    entries := store entry cache.entries
    modified := setFlag entry.key false cache.modified
    size := cache.size - replaced + entry.source.size }

private theorem mem_ite_append {key other : String} {names : List String} :
    other ∈ (if key ∈ names then names else names ++ [key]) ↔ other ∈ names ∨ other = key := by
  split
  next present =>
    constructor
    · exact .inl
    · rintro (member | rfl)
      · exact member
      · exact present
  next => simp

private theorem nodup_ite_append {key : String} {names : List String} (distinct : names.Nodup) :
    (if key ∈ names then names else names ++ [key]).Nodup := by
  split
  next => exact distinct
  next absent =>
    rw [List.nodup_append]
    refine ⟨distinct, by simp, ?_⟩
    rintro name member other last rfl
    exact absent (List.mem_singleton.mp last ▸ member)

theorem Balanced.stored_of_bytes (balanced : cache.Balanced) {replaced : Nat}
    (bytes : totalBytes (store entry cache.entries) + replaced = totalBytes cache.entries + entry.source.size) :
    (cache.stored entry replaced).Balanced where
  distinct := by
    simp only [stored, keys_store]
    exact nodup_ite_append balanced.distinct
  flagsDistinct := by
    simp only [stored, flagKeys_setFlag]
    exact nodup_ite_append balanced.flagsDistinct
  size_eq := by
    have size := balanced.size_eq
    simp only [stored]
    omega
  mem_flags := by
    intro key
    simp only [stored, keys_store, flagKeys_setFlag]
    rw [mem_ite_append, mem_ite_append, balanced.mem_flags]

theorem Balanced.stored_of_find (balanced : cache.Balanced) {entry old : CacheEntry}
    (found : cache.find? entry.key = some old) :
    (cache.stored entry old.source.size).Balanced :=
  balanced.stored_of_bytes (totalBytes_store_of_find found)

theorem Balanced.stored_of_fresh (balanced : cache.Balanced) (fresh : entry.key ∉ keys cache.entries) :
    (cache.stored entry 0).Balanced :=
  balanced.stored_of_bytes (by simp [totalBytes_store_of_not_mem fresh])

/-- What storing does: nothing if the limit is too small; else it replaces the entry of the key, or
makes room and adds one. -/
theorem put_eq_ok {cache after : TreeCache} (done : cache.put settings now key tree source = .ok after) :
    ∃ limit, bytesOf (cache.sizeLimit settings) (fun kind => .notComparable "<=" kind "int") = .ok limit ∧
      (after = cache ∧ (limit ≤ 1024 ∨ limit < (source.size : Int)) ∨
        ((source.size : Int) ≤ limit ∧ ∃ old, cache.find? key = some old ∧
          after = cache.stored ⟨key, tree, source, now⟩ old.source.size) ∨
        (source.size : Int) ≤ limit ∧ cache.find? key = none ∧ ∃ room,
          (room = cache ∧ ((cache.size + source.size : Int) : Rat) ≤ limit ∨
            cache.evict settings source.size = .ok room ∧
              limit < ((cache.size + source.size : Int) : Rat)) ∧
          after = room.stored ⟨key, tree, source, now⟩ 0) := by
  unfold put at done
  obtain ⟨limit, limitOk, rest⟩ := Outcome.bind_eq_ok_iff.mp done
  refine ⟨limit, limitOk, ?_⟩
  split at rest
  next small =>
    cases rest
    left
    simpa using small
  next large =>
    right
    have fits : ((source.size : Int) : Rat) ≤ limit := by
      simp only [Bool.or_eq_true, decide_eq_true_eq, not_or] at large
      exact Rat.not_lt.mp large.2
    cases found : cache.find? key with
    | some old =>
        simp only [found, Outcome.pure_eq_ok, Outcome.ok_bind, Except.ok.injEq] at rest
        exact .inl ⟨fits, old, rfl, rest.symm⟩
    | none =>
        simp only [found] at rest
        split at rest
        next full =>
          obtain ⟨room, evictOk, last⟩ := Outcome.bind_eq_ok_iff.mp rest
          cases last
          exact .inr ⟨fits, rfl, room, .inr ⟨evictOk, full⟩, by simp [stored]⟩
        next free =>
          cases rest
          exact .inr ⟨fits, rfl, cache, .inl ⟨rfl, Rat.not_lt.mp free⟩, by simp [stored]⟩

theorem Balanced.put {cache after : TreeCache} (balanced : cache.Balanced)
    (done : cache.put settings now key tree source = .ok after) : after.Balanced := by
  obtain ⟨limit, -, ⟨rfl, -⟩ | ⟨-, old, found, rfl⟩ | ⟨-, fresh, room, ready, rfl⟩⟩ := put_eq_ok done
  · exact balanced
  · exact balanced.stored_of_find found
  · have absent := find?_eq_none_iff.mp fresh
    rcases ready with ⟨rfl, -⟩ | ⟨evictOk, -⟩
    · exact balanced.stored_of_fresh absent
    · apply (balanced.evict evictOk).stored_of_fresh
      intro present
      exact absent (((entries_sublist_of_evict evictOk).map CacheEntry.key).subset present)

theorem mem_of_put {cache after : TreeCache} (done : cache.put settings now key tree source = .ok after)
    (member : entry ∈ after.entries) :
    entry = ⟨key, tree, source, now⟩ ∨ entry ∈ cache.entries := by
  obtain ⟨limit, -, ⟨rfl, -⟩ | ⟨-, old, -, rfl⟩ | ⟨-, -, room, ready, rfl⟩⟩ := put_eq_ok done
  · exact .inr member
  · exact mem_store member
  · rcases mem_store member with rfl | inRoom
    · exact .inl rfl
    · rcases ready with ⟨rfl, -⟩ | ⟨evictOk, -⟩
      · exact .inr inRoom
      · exact .inr ((entries_sublist_of_evict evictOk).subset inRoom)

theorem update_present {old : CacheEntry} (found : cache.find? key = some old) :
    cache.update settings now key tree source =
      .ok (cache.stored ⟨key, tree, source, now⟩ old.source.size) := by
  simp [TreeCache.update, found, stored]

theorem update_fresh (fresh : cache.find? key = none) :
    cache.update settings now key tree source =
      if cache.isEnabled settings then cache.put settings now key tree source else .ok cache := by
  simp [TreeCache.update, fresh]

theorem Balanced.update {cache after : TreeCache} (balanced : cache.Balanced)
    (done : cache.update settings now key tree source = .ok after) : after.Balanced := by
  cases found : cache.find? key with
  | some old =>
      rw [update_present found] at done
      cases done
      exact balanced.stored_of_find found
  | none =>
      rw [update_fresh found] at done
      split at done
      · exact balanced.put done
      · cases done
        exact balanced

theorem Balanced.markModified (balanced : cache.Balanced) (key : String) :
    (cache.markModified key).Balanced := by
  unfold TreeCache.markModified
  cases found : cache.find? key with
  | none => exact balanced
  | some entry =>
      have present : key ∈ keys cache.entries := by
        obtain ⟨member, same⟩ := find?_eq_some_mem found
        exact mem_keys.mpr ⟨entry, member, same⟩
      have sameFlags : flagKeys (setFlag key true cache.modified) = flagKeys cache.modified := by
        rw [flagKeys_setFlag, if_pos ((balanced.mem_flags key).mpr present)]
      exact {
        distinct := balanced.distinct
        flagsDistinct := by simpa only [sameFlags] using balanced.flagsDistinct
        size_eq := balanced.size_eq
        mem_flags := by simpa only [sameFlags] using balanced.mem_flags }

theorem get_eq_ok {cache after : TreeCache} {result : Option CacheEntry}
    (done : cache.get settings now key = .ok (result, after)) :
    after = cache ∧ result = cache.find? key ∧
        (∀ entry, result = some entry →
          (Value.float (now.sub entry.stamp)).exceeds (cache.timeToLive settings) = .ok false) ∨
      ∃ old, cache.find? key = some old ∧
        (Value.float (now.sub old.stamp)).exceeds (cache.timeToLive settings) = .ok true ∧
        after = cache.remove old ∧ result = none := by
  unfold get at done
  cases found : cache.find? key with
  | none =>
      simp only [found, Except.ok.injEq, Prod.mk.injEq] at done
      obtain ⟨rfl, rfl⟩ := done
      exact .inl ⟨rfl, rfl, by simp⟩
  | some entry =>
      simp only [found] at done
      obtain ⟨old, age, rest⟩ := Outcome.bind_eq_ok_iff.mp done
      cases old with
      | true =>
          cases rest
          exact .inr ⟨entry, rfl, age, rfl, rfl⟩
      | false =>
          cases rest
          exact .inl ⟨rfl, rfl, by simpa using age⟩

end Arborist.TreeCache
