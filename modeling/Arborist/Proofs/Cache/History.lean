import Mathlib
import Arborist.Proofs.Cache.Key
import Arborist.Proofs.Cache.Limits
import Arborist.Proofs.Cache.Run
import Arborist.Proofs.File.Contents
import Arborist.Proofs.Text.Stripping

/-!
What a cache remembers.  A tree is stored for a language, a path and a time of change.  What is read
from the cache later is what was stored last for the same three, not too long ago, and nothing that
was stored for the path has been forgotten since.
-/

namespace Arborist

theorem Binary64.le_of_not_lt {left right : Binary64} (leftNumber : left ≠ .undefined)
    (rightNumber : right ≠ .undefined) (notLess : right.lt left = false) : left.le right = true := by
  cases left <;> cases right <;> simp_all [Binary64.le]

theorem Value.exceeds_of_numbers {left right : Value} {number most : Binary64}
    (leftNumber : left.number? = some number) (rightNumber : right.number? = some most) :
    left.exceeds right = .ok (most.lt number) := by
  simp [exceeds, leftNumber, rightNumber]

theorem Value.exists_number_of_exceeds {left : Binary64} {right : Value}
    (within : (Value.float left).exceeds right = .ok false) :
    ∃ number, right.number? = some number ∧ number.lt left = false := by
  cases known : right.number? with
  | none =>
      unfold exceeds at within
      rw [known] at within
      cases within
  | some most =>
      rw [exceeds_of_numbers rfl known] at within
      exact ⟨most, rfl, Except.ok.inj within⟩

/-- What a tree is stored for. -/
structure CacheSlot where
  language : String
  path : Path
  modified : Binary64

namespace CacheSlot

def key (slot : CacheSlot) : String := TreeCache.keyOf slot.language slot.path.text slot.modified

structure Plain (slot : CacheSlot) : Prop where
  language : ':' ∉ slot.language.toList
  path : slot.path.Proper
  modified : slot.modified.Representable

theorem eq_of_key_eq {slot other : CacheSlot} (plain : slot.Plain) (otherPlain : other.Plain)
    (same : slot.key = other.key) : slot = other := by
  obtain ⟨languages, paths, times⟩ := TreeCache.keyOf_injective plain.language otherPlain.language
    plain.modified otherPlain.modified same
  obtain ⟨language, path, modified⟩ := slot
  obtain rfl : path = other.path := Path.text_injective plain.path otherPlain.path paths
  obtain rfl : language = other.language := languages
  obtain rfl : modified = other.modified := times
  rfl

theorem path_occursIn_key (slot : CacheSlot) : Text.stringOccursIn slot.path.text slot.key = true := by
  rw [Text.stringOccursIn, Text.occursIn_iff_infix, key, TreeCache.keyOf_toList]
  exact ⟨slot.language.toList ++ [':'], ':' :: slot.modified.shortestText.toList, by simp⟩

end CacheSlot

/-- A tree and its source, what they are stored for, and when. -/
structure StoredTree where
  slot : CacheSlot
  tree : Tree
  source : ByteArray
  time : Binary64

def StoredTree.entry (stored : StoredTree) : CacheEntry :=
  ⟨stored.slot.key, stored.tree, stored.source, stored.time⟩

namespace TreeCache

variable {cache : TreeCache}

def admits (cache : TreeCache) (settings : Settings) (source : ByteArray) : Bool :=
  match bytesOf (cache.sizeLimit settings) fun kind => .notComparable "<=" kind "int" with
  | .ok limit => 1024 < limit && ((source.size : Int) : Rat) ≤ limit
  | .error _ => false

theorem put_eq_of_not_admits {cache after : TreeCache} {settings : Settings} {now : Binary64}
    {key : String} {tree : Tree} {source : ByteArray} (refused : cache.admits settings source = false)
    (done : cache.put settings now key tree source = .ok after) : after = cache := by
  unfold put at done
  obtain ⟨limit, limitOk, rest⟩ := Outcome.bind_eq_ok_iff.mp done
  have small : limit ≤ 1024 ∨ limit < (source.size : Int) := by
    simp only [admits, limitOk, Bool.and_eq_false_iff, decide_eq_false_iff_not, Rat.not_lt,
      Rat.not_le] at refused
    exact refused
  rw [if_pos (by simpa using small)] at rest
  cases rest
  rfl

theorem put_of_admits {settings : Settings} {source : ByteArray} (admitted : cache.admits settings source = true)
    (now : Binary64) (key : String) (tree : Tree) :
    ∃ (room : TreeCache) (replaced : Nat), room.entries ⊆ cache.entries ∧
      cache.put settings now key tree source = .ok (room.stored ⟨key, tree, source, now⟩ replaced) := by
  unfold admits at admitted
  split at admitted
  next limit limitOk =>
    simp only [Bool.and_eq_true, decide_eq_true_eq] at admitted
    obtain ⟨after, done⟩ := put_isOk_of_limit limitOk now key tree source
    obtain ⟨same, sameOk, outcome⟩ := put_eq_ok done
    cases limitOk.symm.trans sameOk
    rcases outcome with ⟨-, small | small⟩ | ⟨-, old, -, rfl⟩ | ⟨-, -, room, ready, rfl⟩
    · exact absurd small (Rat.not_le.mpr admitted.1)
    · exact absurd small (Rat.not_lt.mpr admitted.2)
    · exact ⟨cache, _, List.Subset.refl _, done⟩
    · refine ⟨room, 0, ?_, done⟩
      rcases ready with ⟨rfl, -⟩ | ⟨evictOk, -⟩
      · exact List.Subset.refl _
      · exact (entries_sublist_of_evict evictOk).subset
  next => cases admitted

theorem mem_stored (cache : TreeCache) (entry : CacheEntry) (replaced : Nat) :
    entry ∈ (cache.stored entry replaced).entries := by
  simp only [stored]
  induction cache.entries with
  | nil => simp [store]
  | cons head rest ih =>
      unfold store
      split
      · exact List.mem_cons_self
      · exact List.mem_cons_of_mem head ih

theorem Balanced.eq_of_key_eq (balanced : cache.Balanced) {entry other : CacheEntry} (member : entry ∈ cache.entries)
    (otherMember : other ∈ cache.entries) (same : entry.key = other.key) : entry = other :=
  List.inj_on_of_nodup_map balanced.distinct member otherMember same

theorem Balanced.find?_eq_some (balanced : cache.Balanced) {entry : CacheEntry} (member : entry ∈ cache.entries) :
    cache.find? entry.key = some entry := by
  cases found : cache.find? entry.key with
  | none => exact absurd (mem_keys.mpr ⟨entry, member, rfl⟩) (find?_eq_none_iff.mp found)
  | some other =>
      obtain ⟨otherMember, same⟩ := find?_eq_some_mem found
      rw [balanced.eq_of_key_eq otherMember member same]

theorem find?_stored {entry : CacheEntry} {replaced : Nat} (balanced : (cache.stored entry replaced).Balanced) :
    (cache.stored entry replaced).find? entry.key = some entry :=
  balanced.find?_eq_some (mem_stored cache entry replaced)

end TreeCache

namespace Service

def slotAt? (service : Service) (path : Path) (language : String) : Option CacheSlot :=
  (service.store.fileAt? path).map fun (_, modified) => ⟨language, path, modified⟩

theorem keyAt?_eq (service : Service) (path : Path) (language : String) :
    service.keyAt? path language = (service.slotAt? path language).map CacheSlot.key := by
  simp [keyAt?, slotAt?, CacheSlot.key, Function.comp_def]

end Service

namespace CacheStep

variable {step : CacheStep} {service : Service} {stored : StoredTree}

def takesIn (service : Service) (source : ByteArray) : Bool :=
  service.cache.isEnabled service.settings && service.cache.admits service.settings source

/-- What a step stores, if it stores anything.  An update always replaces what is there. -/
def stored? (service : Service) : CacheStep → Option StoredTree
  | put path language tree source =>
      ((service.slotAt? path language).filter fun _ => takesIn service source).map
        fun slot => ⟨slot, tree, source, service.clock⟩
  | update path language tree source =>
      ((service.slotAt? path language).filter fun slot =>
        (service.cache.find? slot.key).isSome || takesIn service source).map
        fun slot => ⟨slot, tree, source, service.clock⟩
  | _ => none

/-- The path is one as paths are read, and the language has no colon in its name. -/
def WellNamed : CacheStep → Prop
  | get path language | put path language _ _ | update path language _ _ | markModified path language
  | isModified path language => path.Proper ∧ ':' ∉ language.toList
  | _ => True

def forgets (key : String) : CacheStep → Bool
  | invalidate none => true
  | invalidate (some path) => Text.stringOccursIn path.text key
  | _ => false

def isStore : CacheStep → Bool
  | put _ _ _ _ | update _ _ _ _ => true
  | _ => false

theorem Effect.entries_subset {service after : Service} (effect : Effect service step after)
    (storesNothing : step.isStore = false) :
    after.cache.entries ⊆ service.cache.entries := by
  cases effect with
  | stored => cases storesNothing
  | updated => cases storesNothing
  | expired => exact List.filter_subset_self _
  | marked =>
      unfold TreeCache.markModified
      split <;> exact List.Subset.refl _
  | evicted done => exact (TreeCache.entries_sublist_of_evict done).subset
  | cleared => exact List.nil_subset _
  | invalidated => exact (TreeCache.entries_sublist_of_foldl_remove _ _).subset
  | nothing | switched | resized | retimed | configured | clockMoved | filesChanged =>
      exact List.Subset.refl _

/-- What a step makes of the entries, given what it stores: the stored tree comes to entries that were
there before, and a step that stores nothing only loses entries. -/
def Keeps (service after : Service) : Option StoredTree → Prop
  | some stored => ∃ (room : TreeCache) (replaced : Nat), room.entries ⊆ service.cache.entries ∧
      after.cache = room.stored stored.entry replaced
  | none => after.cache.entries ⊆ service.cache.entries

theorem keeps_replaceCache_put (service : Service) (slot : CacheSlot) (tree : Tree)
    (source : ByteArray) :
    Keeps service
      (service.replaceCache
        (service.cache.put service.settings service.clock slot.key tree source)).2
      (if service.cache.admits service.settings source then
        some ⟨slot, tree, source, service.clock⟩ else none) := by
  cases admitted : service.cache.admits service.settings source with
  | true =>
      obtain ⟨room, replaced, fewer, done⟩ :=
        TreeCache.put_of_admits admitted service.clock slot.key tree
      rw [done]
      exact ⟨room, replaced, fewer, rfl⟩
  | false =>
      cases done : service.cache.put service.settings service.clock slot.key tree source with
      | error fault => exact List.Subset.refl _
      | ok cache =>
          obtain rfl := TreeCache.put_eq_of_not_admits admitted done
          exact List.Subset.refl _

theorem keeps_put (service : Service) (path : Path) (language : String) (tree : Tree)
    (source : ByteArray) :
    Keeps service (apply service (put path language tree source))
      ((put path language tree source).stored? service) := by
  simp only [apply, action, Service.run_cachePut, Service.keyAt?_eq, stored?, takesIn]
  cases enabled : service.cache.isEnabled service.settings with
  | false =>
      cases service.slotAt? path language <;> exact List.Subset.refl _
  | true =>
      cases service.slotAt? path language with
      | none => exact List.Subset.refl _
      | some slot =>
          have kept := keeps_replaceCache_put service slot tree source
          simpa [Option.filter_some, apply_ite (Option.map _)] using kept

theorem keeps_update (service : Service) (path : Path) (language : String) (tree : Tree)
    (source : ByteArray) :
    Keeps service (apply service (update path language tree source))
      ((update path language tree source).stored? service) := by
  simp only [apply, action, Service.run_cacheUpdate, Service.keyAt?_eq, stored?, takesIn]
  cases service.slotAt? path language with
  | none => exact List.Subset.refl _
  | some slot =>
      cases found : service.cache.find? slot.key with
      | some old =>
          simp only [Option.map_some, TreeCache.update_present found, Option.filter_some, found,
            Option.isSome_some, Bool.true_or, if_true]
          exact ⟨service.cache, _, List.Subset.refl _, rfl⟩
      | none =>
          simp only [Option.map_some, TreeCache.update_fresh found]
          cases enabled : service.cache.isEnabled service.settings with
          | false =>
              simp only [Option.filter_some, found]
              exact List.Subset.refl _
          | true =>
              have kept := keeps_replaceCache_put service slot tree source
              simpa [Option.filter_some, found, apply_ite (Option.map _)] using kept

theorem keeps_apply (service : Service) (step : CacheStep) :
    Keeps service (apply service step) (step.stored? service) := by
  cases step with
  | put path language tree source => exact keeps_put service path language tree source
  | update path language tree source => exact keeps_update service path language tree source
  | _ => exact (effect_apply service _).entries_subset rfl

theorem not_forgets_of_mem {entry : CacheEntry} (member : entry ∈ (apply service step).cache.entries) :
    step.forgets entry.key = false := by
  cases step with
  | invalidate path =>
      cases path with
      | none => cases member
      | some path =>
          -- what is left are the entries whose keys are not among those taken out
          simp only [apply, action, Service.cacheInvalidate, Action.run_modify, TreeCache.invalidate,
            TreeCache.entries_foldl_remove, List.mem_filter] at member
          obtain ⟨before, left⟩ := member
          cases occurs : Text.stringOccursIn path.text entry.key with
          | false => exact occurs
          | true =>
              have taken : entry.key ∈ TreeCache.keys (service.cache.entries.filter fun entry =>
                  Text.stringOccursIn path.text entry.key) :=
                TreeCache.mem_keys.mpr ⟨entry, List.mem_filter.mpr ⟨before, occurs⟩, rfl⟩
              simp [taken] at left
  | _ => rfl

theorem mem_apply_of_stored? (stores : step.stored? service = some stored) :
    stored.entry ∈ (apply service step).cache.entries := by
  have keeps := keeps_apply service step
  rw [stores] at keeps
  obtain ⟨room, replaced, -, cache_eq⟩ := keeps
  rw [cache_eq]
  exact TreeCache.mem_stored room stored.entry replaced

theorem stored_or_kept (balanced : service.cache.Balanced) {entry : CacheEntry}
    (member : entry ∈ (apply service step).cache.entries) :
    (∃ stored, step.stored? service = some stored ∧ stored.entry = entry) ∨
      entry ∈ service.cache.entries ∧
        ∀ stored, step.stored? service = some stored → stored.slot.key ≠ entry.key := by
  have keeps := keeps_apply service step
  have after := (effect_apply service step).balanced balanced
  cases storing : step.stored? service with
  | none =>
      rw [storing] at keeps
      exact .inr ⟨keeps member, by simp⟩
  | some stored =>
      rw [storing] at keeps
      obtain ⟨room, replaced, fewer, cache_eq⟩ := keeps
      have present := mem_apply_of_stored? storing
      by_cases same : stored.entry = entry
      · exact .inl ⟨stored, rfl, same⟩
      · right
        constructor
        · rw [cache_eq] at member
          rcases TreeCache.mem_store member with rfl | inRoom
          · exact absurd rfl same
          · exact fewer inRoom
        · rintro _ ⟨⟩ sameKey
          exact same (after.eq_of_key_eq present member sameKey)

theorem Effect.store_eq {service after : Service} (effect : Effect service step after) :
    after.store = service.store ∨ step = .changeFiles after.store := by
  cases effect with
  | filesChanged => exact .inr rfl
  | _ => exact .inl rfl

theorem stored?_eq_some (stores : step.stored? service = some stored) :
    (step = .put stored.slot.path stored.slot.language stored.tree stored.source ∨
        step = .update stored.slot.path stored.slot.language stored.tree stored.source) ∧
      service.slotAt? stored.slot.path stored.slot.language = some stored.slot := by
  have ofFilter : ∀ {path language tree source} {test : CacheSlot → Bool},
      ((service.slotAt? path language).filter test).map
        (fun slot => StoredTree.mk slot tree source service.clock) = some stored →
      stored.slot.path = path ∧ stored.slot.language = language ∧ stored.tree = tree ∧
        stored.source = source ∧ service.slotAt? path language = some stored.slot := by
    intro path language tree source test filtered
    obtain ⟨slot, kept, rfl⟩ := Option.map_eq_some_iff.mp filtered
    obtain ⟨slotted, -⟩ := Option.filter_eq_some_iff.mp kept
    obtain ⟨⟨content, modified⟩, found, rfl⟩ := Option.map_eq_some_iff.mp slotted
    exact ⟨rfl, rfl, rfl, rfl, slotted⟩
  cases step with
  | put path language tree source =>
      obtain ⟨rfl, rfl, rfl, rfl, slotted⟩ := ofFilter stores
      exact ⟨.inl rfl, slotted⟩
  | update path language tree source =>
      obtain ⟨rfl, rfl, rfl, rfl, slotted⟩ := ofFilter stores
      exact ⟨.inr rfl, slotted⟩
  | _ => cases stores

theorem slot_plain_of_stored? (stores : step.stored? service = some stored) (named : step.WellNamed)
    (dated : service.store.Dated) : stored.slot.Plain := by
  obtain ⟨step_eq, slotted⟩ := stored?_eq_some stores
  obtain ⟨⟨content, modified⟩, found, slot_eq⟩ := Option.map_eq_some_iff.mp slotted
  have names : stored.slot.path.Proper ∧ ':' ∉ stored.slot.language.toList := by
    rcases step_eq with rfl | rfl <;> exact named
  refine ⟨names.2, names.1, ?_⟩
  rw [← slot_eq]
  exact dated.representable found

theorem slotAt?_apply_of_stored? (stores : step.stored? service = some stored) :
    (apply service step).slotAt? stored.slot.path stored.slot.language = some stored.slot := by
  obtain ⟨step_eq, slotted⟩ := stored?_eq_some stores
  have sameStore : (apply service step).store = service.store := by
    rcases (effect_apply service step).store_eq with same | changed
    · exact same
    · rcases step_eq with rfl | rfl <;> cases changed
  rw [← slotted]
  simp only [Service.slotAt?, sameStore]

end CacheStep

namespace Service

variable {start : Service} {stored : StoredTree}

/-- In a run a tree was stored; since then nothing was stored for the same slot, and neither the whole
cache nor the path was forgotten. -/
def LastStored (start : Service) (steps : List CacheStep) (stored : StoredTree) : Prop :=
  ∃ before step later, steps = before ++ step :: later ∧
    step.stored? (start.runCache before) = some stored ∧
    ∀ middle next rest, later = middle ++ next :: rest →
      next ≠ .invalidate none ∧ next ≠ .invalidate (some stored.slot.path) ∧
        ∀ other, next.stored? (start.runCache (before ++ step :: middle)) = some other →
          other.slot ≠ stored.slot

theorem LastStored.concat {steps : List CacheStep} (last : start.LastStored steps stored) {step : CacheStep}
    (remembers : step.forgets stored.slot.key = false)
    (elsewhere : ∀ other, step.stored? (start.runCache steps) = some other → other.slot ≠ stored.slot) :
    start.LastStored (steps ++ [step]) stored := by
  obtain ⟨before, storing, later, rfl, stores, since⟩ := last
  refine ⟨before, storing, later ++ [step], by simp, stores, ?_⟩
  intro middle next rest parts
  rcases List.eq_nil_or_concat rest with rfl | ⟨rest, final, rfl⟩
  · obtain ⟨rfl, same⟩ := List.append_inj' parts rfl
    cases same
    refine ⟨?_, ?_, elsewhere⟩
    · rintro rfl
      cases remembers
    · rintro rfl
      simp only [CacheStep.forgets, CacheSlot.path_occursIn_key] at remembers
      cases remembers
  · have split : later ++ [step] = (middle ++ next :: rest) ++ [final] := by simpa using parts
    obtain ⟨earlier, -⟩ := List.append_inj' split rfl
    exact since middle next rest earlier

theorem lastStored_of_mem (empty : start.cache.entries = []) (balanced : start.cache.Balanced)
    (steps : List CacheStep) {entry : CacheEntry} (member : entry ∈ (start.runCache steps).cache.entries) :
    ∃ stored, stored.entry = entry ∧ start.LastStored steps stored := by
  -- induction on the end of the run
  induction steps using List.reverseRecOn with
  | nil =>
      rw [runCache, List.foldl_nil, empty] at member
      cases member
  | append_singleton before step ih =>
      rw [runCache_concat] at member
      rcases CacheStep.stored_or_kept (runCache_balanced balanced before) member with
        ⟨stored, stores, same⟩ | ⟨old, elsewhere⟩
      · exact ⟨stored, same, before, step, [], rfl, stores, by simp⟩
      · obtain ⟨stored, rfl, last⟩ := ih old
        have remembers := CacheStep.not_forgets_of_mem member
        refine ⟨stored, rfl, last.concat remembers ?_⟩
        intro other stores sameSlot
        exact elsewhere other stores (congrArg CacheSlot.key sameSlot)

theorem run_cacheGet_of_mem {service : Service} (balanced : service.cache.Balanced)
    (slotted : service.slotAt? stored.slot.path stored.slot.language = some stored.slot)
    (member : stored.entry ∈ service.cache.entries) (enabled : service.cache.isEnabled service.settings = true)
    (young : (Value.float (service.clock.sub stored.time)).exceeds
      (service.cache.timeToLive service.settings) = .ok false) :
    ((cacheGet stored.slot.path stored.slot.language).run service).1 =
      .ok (some ⟨stored.tree, stored.source⟩) := by
  have keyed : service.keyAt? stored.slot.path stored.slot.language = some stored.slot.key := by
    rw [keyAt?_eq, slotted]
    rfl
  exact cacheGet_of_find? enabled keyed (balanced.find?_eq_some member) young

theorem store_runCache (start : Service) (steps : List CacheStep) :
    (start.runCache steps).store = start.store ∨
      .changeFiles (start.runCache steps).store ∈ steps := by
  induction steps using List.reverseRecOn with
  | nil => exact .inl rfl
  | append_singleton before step ih =>
      rw [runCache_concat]
      rcases (CacheStep.effect_apply (start.runCache before) step).store_eq with same | changed
      · rw [same]
        exact ih.imp_right fun earlier => List.mem_append_left _ earlier
      · exact .inr (List.mem_append_right _ (by simp [← changed]))

theorem LastStored.slot_plain {steps : List CacheStep} (last : start.LastStored steps stored)
    (named : ∀ step ∈ steps, step.WellNamed)
    (dated : ∀ store, store = start.store ∨ .changeFiles store ∈ steps → store.Dated) :
    stored.slot.Plain := by
  obtain ⟨before, step, later, rfl, stores, -⟩ := last
  apply CacheStep.slot_plain_of_stored? stores (named step (by simp))
  apply dated
  exact (start.store_runCache before).imp_right fun earlier => List.mem_append_left _ earlier

/-- What is read from a cache after any run is what was stored last for the language, the path and the
time at which the file was last changed, and it is not older than allowed.  In turn, what has just
been stored is read. -/
theorem cacheGet_eq_last_stored (service : Service) (maxSizeMb ttlSeconds : Value)
    (steps : List CacheStep) (named : ∀ step ∈ steps, step.WellNamed)
    (dated : ∀ store, store = service.store ∨ .changeFiles store ∈ steps → store.Dated) :
    let start := { service with cache := TreeCache.withLimits maxSizeMb ttlSeconds }
    let after := start.runCache steps
    (∀ (path : Path) (language : String) (parsed : Parsed), path.Proper → ':' ∉ language.toList →
      ((cacheGet path language).run after).1 = .ok (some parsed) →
      ∃ content modified time allowed,
        after.store.fileAt? path = some (content, modified) ∧
        start.LastStored steps ⟨⟨language, path, modified⟩, parsed.tree, parsed.source, time⟩ ∧
        (after.cache.timeToLive after.settings).number? = some allowed ∧
        (after.clock.sub time ≠ .undefined → allowed ≠ .undefined →
          (after.clock.sub time).le allowed = true)) ∧
    ∀ before step stored, steps = before ++ [step] →
      step.stored? (start.runCache before) = some stored →
      after.cache.isEnabled after.settings = true →
      (Value.float (after.clock.sub stored.time)).exceeds (after.cache.timeToLive after.settings) =
        .ok false →
      ((cacheGet stored.slot.path stored.slot.language).run after).1 =
        .ok (some ⟨stored.tree, stored.source⟩) := by
  intro start after
  have balanced : start.cache.Balanced := TreeCache.balanced_withLimits maxSizeMb ttlSeconds
  constructor
  · intro path language parsed proper plainName got
    obtain ⟨content, modified, entry, found, member, key_eq, rfl, young⟩ := exists_entry_of_cacheGet got
    obtain ⟨stored, rfl, last⟩ := lastStored_of_mem rfl balanced steps member
    obtain ⟨allowed, number, notLess⟩ := Value.exists_number_of_exceeds young
    have known : after.store.Dated := dated _ (start.store_runCache steps)
    have slot_eq : stored.slot = ⟨language, path, modified⟩ :=
      CacheSlot.eq_of_key_eq (last.slot_plain named dated)
        ⟨plainName, proper, known.representable found⟩ key_eq
    obtain ⟨slot, tree, source, time⟩ := stored
    cases slot_eq
    exact ⟨content, modified, time, allowed, found, last, number,
      fun age allowance => Binary64.le_of_not_lt age allowance notLess⟩
  · rintro before step stored rfl stores enabled young
    have balancedAfter : after.cache.Balanced := runCache_balanced balanced _
    have after_eq : after = CacheStep.apply (start.runCache before) step := runCache_concat start before step
    rw [after_eq] at enabled young balancedAfter ⊢
    exact run_cacheGet_of_mem balancedAfter (CacheStep.slotAt?_apply_of_stored? stores)
      (CacheStep.mem_apply_of_stored? stores) enabled young

def colonFiles : Service :=
  { store := { root := [("a", .file .empty (.finite 0)), ("a:0.0", .file .empty (.finite 0))] }
    cache := TreeCache.withLimits .null .null }

def vanishing : List CacheStep :=
  [.put (.absolute ["a"]) "p" default ⟨#[1]⟩, .put (.absolute ["a:0.0"]) "p" default ⟨#[2]⟩,
    .changeFiles {}, .moveClock (.finite 1000100), .put (.absolute ["a"]) "p" default ⟨#[3]⟩,
    .changeFiles colonFiles.store]

def firstStored : StoredTree :=
  ⟨⟨"p", .absolute ["a"], .finite 0⟩, default, ⟨#[1]⟩, .finite 1000000⟩

def keptTrees : Service :=
  { colonFiles with
    clock := .finite 1000100
    cache :=
      { TreeCache.withLimits .null .null with
        entries := [firstStored.entry, ⟨"p:/a:0.0:0.0", default, ⟨#[2]⟩, .finite 1000000⟩]
        modified := [("p:/a:0.0", false), ("p:/a:0.0:0.0", false)]
        size := 2 } }

theorem runCache_vanishing : colonFiles.runCache vanishing = keptTrees := by
  cbv

theorem cacheGet_keptTrees :
    ((cacheGet (.absolute ["a"]) "p").run keptTrees).1 = .ok (some ⟨default, ⟨#[1]⟩⟩) := by
  have balanced : keptTrees.cache.Balanced := by
    rw [← runCache_vanishing]
    exact runCache_balanced (TreeCache.balanced_withLimits .null .null) vanishing
  have slotted : keptTrees.slotAt? firstStored.slot.path firstStored.slot.language =
      some firstStored.slot := by
    cbv
  have member : firstStored.entry ∈ keptTrees.cache.entries := List.mem_cons_self
  have young : (Value.float (keptTrees.clock.sub firstStored.time)).exceeds
      (keptTrees.cache.timeToLive keptTrees.settings) = .ok false := by
    have younger : (Binary64.finite (300 : Int)).lt (keptTrees.clock.sub firstStored.time) = false := by
      decide +kernel
    rw [Value.exceeds_of_numbers rfl rfl, younger]
  have got := run_cacheGet_of_mem balanced slotted member rfl young
  exact got

theorem returned_file_read :
    (∀ step ∈ vanishing, step.WellNamed) ∧
      (∀ store, store = colonFiles.store ∨ .changeFiles store ∈ vanishing → store.Dated) ∧
      ((cacheGet (.absolute ["a"]) "p").run (colonFiles.runCache vanishing)).1 =
        .ok (some ⟨default, ⟨#[1]⟩⟩) ∧
      ∃ time, colonFiles.LastStored vanishing { firstStored with time } := by
  have proper : (Path.absolute ["a"]).Proper ∧ (Path.absolute ["a:0.0"]).Proper := by
    decide
  have named : ∀ step ∈ vanishing, step.WellNamed := by
    simp [vanishing, CacheStep.WellNamed, proper]
  have dated : ∀ store, store = colonFiles.store ∨ .changeFiles store ∈ vanishing → store.Dated := by
    intro store known
    simp only [vanishing, List.mem_cons, CacheStep.changeFiles.injEq, reduceCtorEq, List.not_mem_nil,
      false_or, or_false] at known
    rcases known with rfl | rfl | rfl <;> decide +kernel
  have got : ((cacheGet (.absolute ["a"]) "p").run (colonFiles.runCache vanishing)).1 =
      .ok (some ⟨default, ⟨#[1]⟩⟩) := by
    rw [runCache_vanishing]
    exact cacheGet_keptTrees
  obtain ⟨content, modified, time, allowed, found, last, -⟩ :=
    (cacheGet_eq_last_stored colonFiles .null .null vanishing named dated).1
      (.absolute ["a"]) "p" ⟨default, ⟨#[1]⟩⟩ proper.1 (by decide) got
  have here : (colonFiles.runCache vanishing).store.fileAt? (.absolute ["a"]) =
      some (.empty, .finite 0) := by
    rw [runCache_vanishing]
    cbv
  cases here.symm.trans found
  exact ⟨named, dated, got, time, last⟩

end Service

end Arborist
