import Mathlib
import Arborist.Proofs.Cache.History
import Arborist.Proofs.Cache.SizeLimit
import Arborist.Proofs.Number.Overflow

/-!
Which entries an eviction takes.  They wait in a queue, the oldest in front, and the shortest front of the
queue goes that is enough.  This makes room for whatever the limit has room for, as long as the limit is
within the 64-bit format; a request beyond it is refused.
-/

namespace Arborist

namespace Binary64

def place : Binary64 → WithBot (WithTop Rat)
  | .finite value => WithBot.some (WithTop.some value)
  | .negativeZero => WithBot.some (WithTop.some 0)
  | .infinite true | .undefined => ⊥
  | .infinite false => ⊤

theorem lt_eq_place {left right : Binary64} (leftNumber : left ≠ .undefined)
    (rightNumber : right ≠ .undefined) : left.lt right = decide (left.place < right.place) := by
  have below (value : Rat) : (WithBot.some (WithTop.some value) : WithBot (WithTop Rat)) < ⊤ :=
    WithBot.coe_lt_coe.mpr (WithTop.coe_lt_top value)
  have zeroBelow : (0 : WithBot (WithTop Rat)) < ⊤ := below 0
  rcases left with first | _ | (_ | _) | _ <;> rcases right with second | _ | (_ | _) | _ <;>
    simp_all [lt, place, toRat?]

theorem le_eq_place {left right : Binary64} (leftNumber : left ≠ .undefined)
    (rightNumber : right ≠ .undefined) : left.le right = decide (left.place ≤ right.place) := by
  have opposite : left.le right = !right.lt left := by
    cases left <;> cases right <;> simp_all [le]
  rw [opposite, lt_eq_place rightNumber leftNumber, ← decide_not, decide_eq_decide, not_lt]

theorem lt_eq_false_of_le {left right : Binary64} (notLarger : left.le right = true) :
    right.lt left = false := by
  cases left <;> cases right <;> simp_all [le]

end Binary64

namespace TreeCache

/-! The queue. -/

/-- Entries in the order in which they go: the oldest first, those of one time in the order in which they
came. -/
structure QueuedByAge (entries queue : List CacheEntry) : Prop where
  perm : queue.Perm entries
  sorted : queue.Pairwise fun first second => first.stamp.le second.stamp = true
  stable : ∀ first second, [first, second].Sublist entries → first.stamp.le second.stamp = true →
    [first, second].Sublist queue

theorem queuedByAge_byAge {entries : List CacheEntry}
    (timed : ∀ entry ∈ entries, entry.stamp ≠ .undefined) : QueuedByAge entries (byAge entries) := by
  -- among these entries the comparison is that of places, which are in a linear order
  let notYounger (first second : CacheEntry) : Bool := decide (first.stamp.place ≤ second.stamp.place)
  have agree : ∀ first ∈ entries, ∀ second ∈ entries,
      first.stamp.le second.stamp = notYounger first second := by
    intro first firstIn second secondIn
    exact Binary64.le_eq_place (timed first firstIn) (timed second secondIn)
  have transitive : ∀ first second third, notYounger first second = true →
      notYounger second third = true → notYounger first third = true := by
    intro first second third early late
    exact decide_eq_true ((of_decide_eq_true early).trans (of_decide_eq_true late))
  have total : ∀ first second, (notYounger first second || notYounger second first) = true := by
    intro first second
    simp only [notYounger, Bool.or_eq_true, decide_eq_true_eq]
    exact le_total _ _
  have same : byAge entries = entries.mergeSort notYounger := by
    have mapped := List.map_mergeSort (f := id) agree
    rwa [List.map_id, List.map_id] at mapped
  have members : ∀ {entry}, entry ∈ entries.mergeSort notYounger → entry ∈ entries :=
    fun among => (List.mergeSort_perm entries notYounger).subset among
  rw [same]
  refine ⟨List.mergeSort_perm entries notYounger, ?_, ?_⟩
  · apply (List.pairwise_mergeSort transitive total entries).imp_of_mem
    intro first second firstIn secondIn ordered
    rwa [agree first (members firstIn) second (members secondIn)]
  · intro first second came ordered
    rw [agree first (came.subset (by simp)) second (came.subset (by simp))] at ordered
    exact List.pair_sublist_mergeSort transitive total ordered came

/-- Whether some entries are enough. -/
def EvictionGoal.MetBy (goal : EvictionGoal) (taken : List CacheEntry) : Prop :=
  goal.bytes ≤ totalBytes taken ∧ goal.entries ≤ taken.length

/-- The shortest front of a queue that meets a goal, or all of the queue if none does. -/
def IsShortestFront (goal : EvictionGoal) (queue taken : List CacheEntry) : Prop :=
  taken <+: queue ∧
    (goal.MetBy taken ∧ (∀ other, other <+: queue → goal.MetBy other → taken.length ≤ other.length) ∨
      taken = queue ∧ ∀ other, other <+: queue → ¬ goal.MetBy other)

theorem evicted_isPrefix_of_enough {goal : EvictionGoal} {freed : Int} {removed : Nat}
    {queue other : List CacheEntry} (front : other <+: queue) (nonempty : other ≠ [])
    (bytes : goal.bytes ≤ freed + totalBytes other) (count : goal.entries ≤ removed + other.length) :
    evicted goal freed removed queue <+: other := by
  induction queue generalizing freed removed other with
  | nil => exact absurd (List.prefix_nil.mp front) nonempty
  | cons entry rest ih =>
      obtain ⟨first, later, rfl⟩ := List.exists_cons_of_ne_nil nonempty
      obtain ⟨rfl, laterFront⟩ := List.cons_prefix_cons.mp front
      simp only [totalBytes_cons, List.length_cons] at bytes count
      unfold evicted
      split
      next => simp
      next short =>
        -- the first entry alone is not enough, so there are others
        have more : later ≠ [] := by
          rintro rfl
          simp only [totalBytes_nil, List.length_nil, Nat.add_zero, Nat.zero_add] at bytes count
          simp [bytes, count] at short
        rw [List.cons_prefix_cons]
        refine ⟨rfl, ih laterFront more ?_ ?_⟩ <;> omega

theorem isShortestFront_evicted {goal : EvictionGoal} (needed : 1 ≤ goal.entries)
    (queue : List CacheEntry) : IsShortestFront goal queue (evicted goal 0 0 queue) := by
  have front := evicted_isPrefix goal 0 0 queue
  have within : ∀ other, other <+: queue → goal.MetBy other → evicted goal 0 0 queue <+: other := by
    rintro other otherFront ⟨bytes, count⟩
    apply evicted_isPrefix_of_enough otherFront
    · rintro rfl
      simp only [List.length_nil] at count
      omega
    · omega
    · omega
  refine ⟨front, ?_⟩
  by_cases met : goal.MetBy (evicted goal 0 0 queue)
  · left
    exact ⟨met, fun other otherFront enough => (within other otherFront enough).length_le⟩
  · right
    have all : evicted goal 0 0 queue = queue := by
      rcases evicted_eq_or_enough goal 0 0 queue with all | ⟨bytes, count⟩
      · exact all
      · exact absurd ⟨by omega, by omega⟩ met
    refine ⟨all, ?_⟩
    intro other otherFront enough
    have whole : other = queue := by
      apply otherFront.eq_of_length
      have longest := (within other otherFront enough).length_le
      rw [all] at longest
      exact Nat.le_antisymm otherFront.length_le longest
    rw [all, ← whole] at met
    exact met enough

theorem one_le_evictionGoal_entries (cache : TreeCache) (limitMb : Value) (limit : Rat) (required : Int) :
    1 ≤ (cache.evictionGoal limitMb limit required).entries := by
  unfold evictionGoal
  extract_lets isTiny bytes nearlyFull
  split
  · exact le_max_left 1 _
  · split
    · exact le_max_left 1 _
    · exact le_refl 1

/-- What an eviction that works towards a goal makes of a cache. -/
structure EvictsOldest (goal : EvictionGoal) (before after : TreeCache) (gone : List CacheEntry) : Prop where
  front : ∃ queue, QueuedByAge before.entries queue ∧ IsShortestFront goal queue gone
  order : after.entries.Sublist before.entries
  mem_iff : ∀ entry, entry ∈ after.entries ↔ entry ∈ before.entries ∧ entry ∉ gone
  flags : ∀ key, after.modified.lookup key = if key ∈ keys gone then none else before.modified.lookup key
  size_eq : after.size = before.size - totalBytes gone
  limits : SameLimits before after
  noneOlder : ∀ old ∈ gone, ∀ kept ∈ after.entries, kept.stamp.lt old.stamp = false

theorem evictsOldest_foldl_remove {cache : TreeCache} (distinct : (keys cache.entries).Nodup)
    (timed : ∀ entry ∈ cache.entries, entry.stamp ≠ .undefined) {goal : EvictionGoal}
    (needed : 1 ≤ goal.entries) :
    let gone := evicted goal 0 0 (byAge cache.entries)
    EvictsOldest goal cache (gone.foldl remove cache) gone := by
  intro gone
  have queued := queuedByAge_byAge timed
  have front : gone <+: byAge cache.entries := evicted_isPrefix goal 0 0 (byAge cache.entries)
  have mem_iff : ∀ entry, entry ∈ (gone.foldl remove cache).entries ↔
      entry ∈ cache.entries ∧ entry ∉ gone := by
    intro entry
    rw [entries_foldl_remove, List.mem_filter]
    simp only [Bool.not_eq_true', List.contains_eq_mem, decide_eq_false_iff_not]
    apply and_congr_right
    intro member
    constructor
    · exact fun outside among => outside (mem_keys.mpr ⟨entry, among, rfl⟩)
    · intro outside named
      obtain ⟨other, among, same⟩ := mem_keys.mp named
      have otherMember : other ∈ cache.entries := queued.perm.subset (front.subset among)
      exact outside (List.inj_on_of_nodup_map distinct otherMember member same ▸ among)
  exact {
    front := ⟨byAge cache.entries, queued, isShortestFront_evicted needed _⟩
    order := entries_sublist_of_foldl_remove gone cache
    mem_iff := mem_iff
    flags := lookup_foldl_remove gone cache
    size_eq := size_foldl_remove gone cache
    limits := .foldl_remove gone cache
    noneOlder := by
      intro old oldGone kept keptAfter
      obtain ⟨member, outside⟩ := (mem_iff kept).mp keptAfter
      obtain ⟨rest, split⟩ := front
      have ordered := queued.sorted
      have waiting := queued.perm.mem_iff.mpr member
      rw [← split] at ordered waiting
      have inRest : kept ∈ rest := (List.mem_append.mp waiting).resolve_left outside
      exact Binary64.lt_eq_false_of_le ((List.pairwise_append.mp ordered).2.2 old oldGone kept inRest) }

section Limited

variable {cache : TreeCache} {settings : Settings} {megabytes : Int}
  (limited : cache.sizeLimit settings = .int megabytes)

include limited

theorem evict_eq (required : Int) :
    cache.evict settings required =
      .ok (if cache.size + required ≤ megabytes * 1024 * 1024 then cache
        else (evicted (cache.evictionGoal (.int megabytes) ((megabytes * 1024 * 1024 : Int) : Rat) required)
          0 0 (byAge cache.entries)).foldl remove cache) := by
  have compare : ((cache.size + required : Int) : Rat) ≤ ((megabytes * 1024 * 1024 : Int) : Rat) ↔
      cache.size + required ≤ megabytes * 1024 * 1024 := Int.cast_le
  unfold evict
  dsimp only
  rw [limited, bytesOf_int, Outcome.ok_bind]
  simp only [compare, Outcome.pure_eq_ok, evictUntil_eq_foldl]
  by_cases room : cache.size + required ≤ megabytes * 1024 * 1024
  · simp [room]
  · cases empty : cache.entries with
    | nil => simp [byAge, evicted]
    | cons entry rest => simp [room]

theorem makeRoom_eq (required : Int) :
    cache.makeRoom settings required =
      if cache.size + required ≤ megabytes * 1024 * 1024 ∨ cache.entries = [] ∨
          megabytes * 1024 * 1024 < Binary64.formatEnd then
        cache.evict settings required
      else .error .integerTooLarge := by
  have compare : ((megabytes * 1024 * 1024 : Int) : Rat) < ((cache.size + required : Int) : Rat) ↔
      megabytes * 1024 * 1024 < cache.size + required := Int.cast_lt
  have beyond : isBeyondFormat (.int megabytes) ((megabytes * 1024 * 1024 : Int) : Rat) = true ↔
      Binary64.formatEnd ≤ megabytes * 1024 * 1024 := by
    simp only [isBeyondFormat, decide_eq_true_eq, Binary64.ofRat_eq_infinite_iff]
    exact Int.cast_le
  unfold makeRoom
  dsimp only
  rw [limited, bytesOf_int, Outcome.ok_bind, ← ite_not]
  simp only [compare, beyond, Outcome.throw_eq_error, Bool.and_eq_true, decide_eq_true_eq, Bool.not_eq_true',
    List.isEmpty_eq_false_iff, and_assoc, not_and_or, Int.not_lt, Int.not_le, ne_eq, Decidable.not_not]

end Limited

theorem Balanced.put_fresh {cache : TreeCache} (balanced : cache.Balanced) {settings : Settings}
    {megabytes : Int} (positive : 1 ≤ megabytes) (limited : cache.sizeLimit settings = .int megabytes)
    (within : cache.size ≤ megabytes * 1024 * 1024) {key : String} (fresh : cache.find? key = none)
    {source : ByteArray} (fits : (source.size : Int) ≤ megabytes * 1024 * 1024) (now : Binary64)
    (tree : Tree) :
    ∃ after, cache.put settings now key tree source = .ok after ∧ after.size ≤ megabytes * 1024 * 1024 ∧
      after.find? key = some ⟨key, tree, source, now⟩ := by
  have admitted : cache.admits settings source = true := by
    unfold admits
    rw [limited, bytesOf_int]
    simp only [Bool.and_eq_true, decide_eq_true_eq]
    constructor
    · have : 1024 < megabytes * 1024 * 1024 := by omega
      exact_mod_cast this
    · exact_mod_cast fits
  obtain ⟨room, replaced, -, done⟩ := put_of_admits admitted now key tree
  exact ⟨_, done, balanced.size_put_fresh_le positive limited within fresh done,
    find?_stored (balanced.put done)⟩

end TreeCache

namespace Service

def hugeMegabytes : Int := 2 ^ 1004

def boundlessService : Service :=
  { settings := { cache := .fields { maxSizeMb := .int hugeMegabytes } }
    cache := (TreeCache.withLimits .null .null).stored ⟨"p:/f:0.0", default, ⟨#[1]⟩, .finite 0⟩ 0 }

theorem sizeLimit_boundless :
    boundlessService.cache.sizeLimit boundlessService.settings = .int hugeMegabytes := rfl

theorem balanced_boundless : boundlessService.cache.Balanced :=
  (TreeCache.balanced_withLimits .null .null).stored_of_fresh List.not_mem_nil

theorem formatEnd_le_huge : ¬ hugeMegabytes * 1024 * 1024 < Binary64.formatEnd := by
  decide +kernel

end Service

end Arborist
