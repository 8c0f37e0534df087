import Mathlib
import Arborist.Proofs.Cache.History
import Arborist.Proofs.Server.NodeAccess
import Arborist.Service.Projects

/-!
Forgetting what is cached of one file.  Everything stored for its path goes, of whatever language and time.
But the path is looked for in the text of the keys, so other files lose their trees with it: those in whose
path, or path and time, the text of the first path occurs.
-/

namespace Arborist

theorem Text.cons_infix_append_iff {mark : Char} {needle front rest : List Char} (clear : mark ∉ front) :
    mark :: needle <:+: front ++ rest ↔ mark :: needle <:+: rest := by
  induction front with
  | nil => rfl
  | cons first front ih =>
      simp only [List.mem_cons, not_or] at clear
      rw [List.cons_append, List.infix_cons_iff, List.cons_prefix_cons, ih clear.2]
      simp [clear.1]

namespace CacheSlot

theorem key_toList (slot : CacheSlot) :
    slot.key.toList =
      slot.language.toList ++ ':' :: (slot.path.text.toList ++ ':' :: slot.modified.shortestText.toList) :=
  TreeCache.keyOf_toList slot.language slot.path.text slot.modified

/-- The text of a path occurs in that of the slot's path, as it stands in front of the slot's time. -/
def Contains (slot : CacheSlot) (path : Path) : Prop :=
  path.text.toList <:+: slot.path.text.toList ++ ':' :: slot.modified.shortestText.toList

theorem text_infix_key_iff {slot : CacheSlot} (plain : '/' ∉ slot.language.toList) (names : List String) :
    (Path.absolute names).text.toList <:+: slot.key.toList ↔ slot.Contains (.absolute names) := by
  have slashed : (Path.absolute names).text.toList = '/' :: ("/".intercalate names).toList := by
    simp [Path.absolute, Path.text, Anchor.text]
  have clear : '/' ∉ slot.language.toList ++ [':'] := by simp [plain]
  unfold Contains
  rw [key_toList, List.append_cons, slashed]
  exact Text.cons_infix_append_iff clear

end CacheSlot

namespace TreeCache

theorem Balanced.lookup_eq_none {cache : TreeCache} (balanced : cache.Balanced) {key : String}
    (absent : cache.find? key = none) : cache.modified.lookup key = none := by
  apply List.lookup_eq_none_iff.mpr
  intro pair member
  rw [bne_iff_ne]
  rintro rfl
  have flagged : pair.1 ∈ flagKeys cache.modified := List.mem_map_of_mem member
  exact find?_eq_none_iff.mp absent ((balanced.mem_flags pair.1).mp flagged)

theorem mem_keys_of_invalidate_iff {cache : TreeCache} {path key : String} :
    key ∈ keys (cache.entries.filter fun entry => Text.stringOccursIn path entry.key) ↔
      key ∈ keys cache.entries ∧ path.toList <:+: key.toList := by
  simp only [mem_keys, List.mem_filter, Text.stringOccursIn, Text.occursIn_iff_infix]
  constructor
  · rintro ⟨entry, ⟨member, occurs⟩, rfl⟩
    exact ⟨⟨entry, member, rfl⟩, occurs⟩
  · rintro ⟨⟨entry, member, rfl⟩, occurs⟩
    exact ⟨entry, ⟨member, occurs⟩, rfl⟩

theorem find?_invalidate (cache : TreeCache) (path key : String) :
    (cache.invalidate path).find? key =
      if path.toList <:+: key.toList then none else cache.find? key := by
  unfold invalidate
  rw [find?_foldl_remove]
  simp only [mem_keys_of_invalidate_iff]
  by_cases occurs : path.toList <:+: key.toList
  · simpa [occurs] using find?_eq_none_iff.mpr
  · simp [occurs]

theorem Balanced.lookup_invalidate {cache : TreeCache} (balanced : cache.Balanced) (path key : String) :
    (cache.invalidate path).modified.lookup key =
      if path.toList <:+: key.toList then none else cache.modified.lookup key := by
  unfold TreeCache.invalidate
  rw [lookup_foldl_remove]
  simp only [mem_keys_of_invalidate_iff]
  by_cases occurs : path.toList <:+: key.toList
  · simpa [occurs] using fun absent => balanced.lookup_eq_none (find?_eq_none_iff.mpr absent)
  · simp [occurs]

structure SameAt (before after : TreeCache) (key : String) : Prop where
  entry : after.find? key = before.find? key
  flag : after.modified.lookup key = before.modified.lookup key

/-- All that is stored for a path goes, and what is stored for other paths stays. -/
structure ForgetsExactly (path : Path) (before after : TreeCache) : Prop where
  gone : ∀ slot : CacheSlot, slot.path = path →
    after.find? slot.key = none ∧ after.modified.lookup slot.key = none
  kept : ∀ slot : CacheSlot, slot.Plain → slot.path ≠ path → before.SameAt after slot.key

theorem Balanced.gone_of_invalidate {cache : TreeCache} (balanced : cache.Balanced) (slot : CacheSlot) :
    (cache.invalidate slot.path.text).find? slot.key = none ∧
      (cache.invalidate slot.path.text).modified.lookup slot.key = none := by
  have occurs : slot.path.text.toList <:+: slot.key.toList :=
    Text.occursIn_iff_infix.mp slot.path_occursIn_key
  rw [find?_invalidate, balanced.lookup_invalidate, if_pos occurs, if_pos occurs]
  exact ⟨rfl, rfl⟩

theorem Balanced.forgetsExactly_iff {cache : TreeCache} (balanced : cache.Balanced) (path : Path) :
    ForgetsExactly path cache (cache.invalidate path.text) ↔
      ∀ slot : CacheSlot, slot.Plain → slot.path ≠ path → (cache.find? slot.key).isSome →
        ¬ path.text.toList <:+: slot.key.toList := by
  constructor
  · intro exact slot plain elsewhere held occurs
    have same := (exact.kept slot plain elsewhere).entry
    rw [find?_invalidate, if_pos occurs] at same
    simp [← same] at held
  · intro apart
    refine ⟨?_, ?_⟩
    · rintro slot rfl
      exact balanced.gone_of_invalidate slot
    · intro slot plain elsewhere
      by_cases occurs : path.text.toList <:+: slot.key.toList
      · have absent : cache.find? slot.key = none := by
          apply Option.not_isSome_iff_eq_none.mp
          exact fun held => apart slot plain elsewhere held occurs
        constructor
        · rw [find?_invalidate, if_pos occurs, absent]
        · rw [balanced.lookup_invalidate, if_pos occurs, balanced.lookup_eq_none absent]
      · constructor
        · rw [find?_invalidate, if_neg occurs]
        · rw [balanced.lookup_invalidate, if_neg occurs]

end TreeCache

namespace Service

theorem run_cacheInvalidate (service : Service) (path : Path) :
    (cacheInvalidate (some path)).run service =
      (.ok (), { service with cache := service.cache.invalidate path.text }) := rfl

end Service

section Clearing

variable {service : Service} {name file : String} {project : Project} {path : Path}
  (named : name ≠ "") (asked : file ≠ "") (known : ProjectList.find service.projects name = .ok project)
  (accepted : project.filePath service.store file = .ok path)

include named asked known accepted

theorem Service.run_clearCache_file :
    (clearCache (some name) (some file)).run service =
      (.ok (success s!"Cache cleared for {file} in {name}"),
        { service with cache := service.cache.invalidate path.text }) := by
  have filled : (name.isEmpty || file.isEmpty) = false := by simp [named, asked]
  unfold clearCache
  simp only [filled, Bool.false_eq_true, if_false, Action.run_bind, run_findProject, known,
    Action.run_onStore, accepted, run_cacheInvalidate, Action.run_pure]

theorem Server.Tool.run_clearCacheFor_file :
    (clearCacheFor (some name) (some file)).run service =
      (.ok (Service.success s!"Cache cleared for {file} in project {name}"),
        { service with cache := service.cache.invalidate path.text }) := by
  have filled : name.isEmpty = false ∧ file.isEmpty = false := by simp [named, asked]
  unfold clearCacheFor
  simp only [Option.filter_some, filled, Bool.not_false, if_true, Action.run_bind, Service.run_findProject,
    known, Action.run_onStore, accepted, Service.run_cacheInvalidate, Action.run_pure]

end Clearing

/-- Clearing what is cached of a file forgets all of it, and nothing else exactly if its path does not occur
in the key of anything stored for another path. -/
theorem Service.clearing_exact_iff (service : Service) (balanced : service.cache.Balanced) :
    (∀ path : Path,
      let after := ((cacheInvalidate (some path)).run service).2.cache
      (∀ slot : CacheSlot, slot.path = path →
        after.find? slot.key = none ∧ after.modified.lookup slot.key = none) ∧
      (TreeCache.ForgetsExactly path service.cache after ↔
        ∀ slot : CacheSlot, slot.Plain → slot.path ≠ path → (service.cache.find? slot.key).isSome →
          ¬ path.text.toList <:+: slot.key.toList)) ∧
    ∀ name file project path, name ≠ "" → file ≠ "" →
      ProjectList.find service.projects name = .ok project →
      project.filePath service.store file = .ok path →
      let after := ((cacheInvalidate (some path)).run service).2
      (∃ answer, (Server.Tool.clearCacheFor (some name) (some file)).run service = (.ok answer, after)) ∧
      (∃ answer, (clearCache (some name) (some file)).run service = (.ok answer, after)) ∧
      ∀ slot : CacheSlot, '/' ∉ slot.language.toList →
        (path.text.toList <:+: slot.key.toList ↔ slot.Contains path) := by
  constructor
  · intro path after
    refine ⟨?_, balanced.forgetsExactly_iff path⟩
    rintro slot rfl
    exact balanced.gone_of_invalidate slot
  · intro name file project path named asked known accepted after
    refine ⟨⟨_, Server.Tool.run_clearCacheFor_file named asked known accepted⟩,
      ⟨_, run_clearCache_file named asked known accepted⟩, ?_⟩
    intro slot plain
    obtain ⟨normalized, -⟩ := Project.filePath_eq_ok_iff.mp accepted
    obtain ⟨names, rfl⟩ := Project.exists_absolute_of_normalize normalized
    exact CacheSlot.text_infix_key_iff plain names

namespace Service

def shortSlot : CacheSlot := ⟨"p", .absolute ["r", "a"], .finite 0⟩

def longSlot : CacheSlot := ⟨"p", .absolute ["r", "ab"], .finite 0⟩

def namesakes : Service :=
  { store :=
      { root := [("r", .directory [("a", .file .empty (.finite 0)), ("ab", .file .empty (.finite 0))])] }
    projects := [("q", { name := "q", root := .absolute ["r"] })]
    cache := ((TreeCache.withLimits .null .null).stored
      ⟨shortSlot.key, default, ⟨#[1]⟩, .finite 0⟩ 0).stored ⟨longSlot.key, default, ⟨#[2]⟩, .finite 0⟩ 0 }

theorem key_shortSlot : shortSlot.key = "p:/r/a:0.0" := by
  cbv

theorem key_longSlot : longSlot.key = "p:/r/ab:0.0" := by
  cbv

theorem balanced_namesakes : namesakes.cache.Balanced := by
  have first : ((TreeCache.withLimits .null .null).stored
      ⟨shortSlot.key, default, ⟨#[1]⟩, .finite 0⟩ 0).Balanced :=
    (TreeCache.balanced_withLimits .null .null).stored_of_fresh List.not_mem_nil
  apply first.stored_of_fresh
  change longSlot.key ∉ [shortSlot.key]
  rw [key_shortSlot, key_longSlot]
  decide

/-- Clearing what is cached of the first file takes the tree of the second. -/
theorem namesake_forgotten :
    (namesakes.cache.find? longSlot.key).isSome ∧
      ∃ answer after, (Server.Tool.clearCacheFor (some "q") (some "a")).run namesakes = (.ok answer, after) ∧
        after.cache.find? longSlot.key = none ∧
        ¬ TreeCache.ForgetsExactly (.absolute ["r", "a"]) namesakes.cache after.cache := by
  have held : (namesakes.cache.find? longSlot.key).isSome := by
    exact Option.isSome_iff_exists.mpr ⟨_, TreeCache.find?_stored balanced_namesakes⟩
  have accepted : Project.filePath { name := "q", root := .absolute ["r"] } namesakes.store "a" =
      .ok (.absolute ["r", "a"]) := by
    cbv
  have plain : longSlot.Plain := ⟨by decide, by decide, by decide +kernel⟩
  have occurs : (Path.absolute ["r", "a"]).text.toList <:+: longSlot.key.toList := by
    rw [key_longSlot]
    exact Text.occursIn_iff_infix.mp (by decide)
  obtain ⟨onPath, onFile⟩ := clearing_exact_iff namesakes balanced_namesakes
  obtain ⟨⟨answer, cleared⟩, -, -⟩ := onFile "q" "a" _ _ (by decide) (by decide) rfl accepted
  refine ⟨held, answer, _, cleared, ?_, ?_⟩
  · exact (TreeCache.find?_invalidate _ _ _).trans (if_pos occurs)
  · rw [(onPath _).2]
    exact fun apart => apart longSlot plain (by decide) held occurs

end Service

end Arborist
