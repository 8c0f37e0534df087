import Mathlib
import Arborist.Proofs.Cache.History
import Arborist.Proofs.Service.Transparency

/-!
Updates of cached trees.  An update that goes through gives what the file holds.  One that fails falls back
on parsing through the cache, which still has the entry that was to be replaced; so it gives that entry,
whatever the file holds by then.
-/

namespace Arborist.Service

/-- What the file holds, and what the engine makes of it. -/
def Current (service : Service) (path : Path) (parsed : Parsed) : Prop :=
  (∃ modified, service.store.fileAt? path = some (parsed.source, modified)) ∧
    service.engine.shapeOf parsed.source = .ok parsed.tree.shape

/-- The tree can be edited, the source can be parsed, and there is a number to compare its size with. -/
structure Updates (service : Service) (tree : Tree) (edit : Edit) (source : ByteArray) : Prop where
  edited : ∃ log, service.engine.edit service.engineLog tree edit = .ok log
  parsed : ∃ shape, service.engine.shapeOf source = .ok shape
  limited : ∃ limit, TreeCache.bytesOf (service.cache.sizeLimit service.settings)
    (fun kind => .notComparable "<=" kind "int") = .ok limit

def reparse (path : Path) (language : String) (old : Tree) (edit : Edit) : Action Parsed := do
  editTree old edit
  let source ← readSource path
  let tree ← parseSource source (some old)
  cachePut path language tree source
  return ⟨tree, source⟩

def parseAnew (path : Path) : Action Parsed := do
  let source ← readSource path
  let tree ← parseSource source none
  return ⟨tree, source⟩

theorem updateCached_eq (path : Path) (language : String) (edit : Edit) :
    updateCached path language edit = (do
      match ← cacheGet path language with
      | none => return none
      | some old =>
        match ← Action.attempt (reparse path language old.tree edit) with
        | .ok parsed => return some parsed
        | .error _ => return some (← parseCached path language)) := rfl

theorem run_editTree (service : Service) (tree : Tree) (edit : Edit) :
    (editTree tree edit).run service =
      match service.engine.edit service.engineLog tree edit with
      | .ok engineLog => (.ok (), { service with engineLog })
      | .error fault => (.error fault, service) := by
  unfold editTree
  simp only [Action.run_bind, Action.run_get, Action.run_lift]
  cases service.engine.edit service.engineLog tree edit <;> rfl

section Live

variable {service : Service} {path : Path} {language : String} {old : Parsed} {source : ByteArray}

/-- An entry that is found is found again, as long as only the engine has gone on. -/
theorem run_cacheGet_of_live (live : ((cacheGet path language).run service).1 = .ok (some old))
    (engineLog : EngineLog) :
    (cacheGet path language).run { service with engineLog } = (.ok (some old), { service with engineLog }) := by
  obtain ⟨key, entry, enabled, keyed, got, rfl⟩ := exists_key_of_cacheGet live
  have sameKey : keyAt? { service with engineLog } path language = some key := keyed
  rw [run_cacheGet, sameKey]
  simp only [enabled, got]
  rfl

theorem run_parseCached_of_live (live : ((cacheGet path language).run service).1 = .ok (some old))
    (engineLog : EngineLog) :
    (parseCached path language).run { service with engineLog } = (.ok old, { service with engineLog }) := by
  rw [parseCached_eq, throughCache, Action.run_bind, run_cacheGet_of_live live]
  rfl

theorem run_cachePut_of_live (live : ((cacheGet path language).run service).1 = .ok (some old))
    (engineLog : EngineLog) (tree : Tree) (source : ByteArray) :
    ∃ key, (cachePut path language tree source).run { service with engineLog } =
      replaceCache { service with engineLog }
        (service.cache.put service.settings service.clock key tree source) := by
  obtain ⟨key, -, enabled, keyed, -, -⟩ := exists_key_of_cacheGet live
  have sameKey : keyAt? { service with engineLog } path language = some key := keyed
  refine ⟨key, ?_⟩
  rw [run_cachePut, sameKey]
  simp only [enabled]

theorem run_reparse_of_updates (live : ((cacheGet path language).run service).1 = .ok (some old))
    (read : File.readBytes service.store path.text = .ok source) {edit : Edit}
    (updates : service.Updates old.tree edit source) :
    ∃ tree, ((reparse path language old.tree edit).run service).1 = .ok ⟨tree, source⟩ ∧
      service.engine.shapeOf source = .ok tree.shape := by
  obtain ⟨⟨log, edited⟩, ⟨shape, shaped⟩, limit, limited⟩ := updates
  have same := service.engine.parse_shape log source (some old.tree)
  rw [shaped] at same
  obtain ⟨⟨tree, noted⟩, parsed, rfl⟩ := Outcome.map_eq_ok_iff.mp same
  obtain ⟨key, stores⟩ := run_cachePut_of_live live noted tree source
  obtain ⟨cache, put⟩ := TreeCache.put_isOk_of_limit limited service.clock key tree source
  refine ⟨tree, ?_, shaped⟩
  simp only [reparse, Action.run_bind, run_editTree, edited, run_readSource, read, run_parseSource, parsed,
    stores, put, replaceCache, Action.run_pure]

theorem run_reparse_of_not_updates (live : ((cacheGet path language).run service).1 = .ok (some old))
    (read : File.readBytes service.store path.text = .ok source) {edit : Edit}
    (fails : ¬ service.Updates old.tree edit source) :
    ∃ fault engineLog, (reparse path language old.tree edit).run service =
      (.error fault, { service with engineLog }) := by
  cases edited : service.engine.edit service.engineLog old.tree edit with
  | error fault =>
      refine ⟨fault, service.engineLog, ?_⟩
      simp only [reparse, Action.run_bind, run_editTree, edited]
  | ok log =>
      cases parsed : service.engine.parse log source (some old.tree) with
      | error fault =>
          refine ⟨fault, log, ?_⟩
          simp only [reparse, Action.run_bind, run_editTree, edited, run_readSource, read, run_parseSource,
            parsed]
      | ok made =>
          obtain ⟨tree, noted⟩ := made
          have shaped := service.engine.parse_shape log source (some old.tree)
          rw [parsed] at shaped
          cases limited : TreeCache.bytesOf (service.cache.sizeLimit service.settings)
              fun kind => .notComparable "<=" kind "int" with
          | ok limit => exact absurd ⟨⟨log, edited⟩, ⟨_, shaped.symm⟩, limit, limited⟩ fails
          | error fault =>
              obtain ⟨key, stores⟩ := run_cachePut_of_live live noted tree source
              have put : service.cache.put service.settings service.clock key tree source = .error fault := by
                rw [TreeCache.put, limited, Outcome.error_bind]
              refine ⟨fault, noted, ?_⟩
              simp only [reparse, Action.run_bind, run_editTree, edited, run_readSource, read,
                run_parseSource, parsed, stores, put, replaceCache]

theorem updateCached_of_updates (live : ((cacheGet path language).run service).1 = .ok (some old))
    (read : File.readBytes service.store path.text = .ok source) {edit : Edit}
    (updates : service.Updates old.tree edit source) :
    ∃ tree, ((updateCached path language edit).run service).1 = .ok (some ⟨tree, source⟩) ∧
      service.engine.shapeOf source = .ok tree.shape := by
  obtain ⟨tree, made, shaped⟩ := run_reparse_of_updates live read updates
  refine ⟨tree, ?_, shaped⟩
  have again := run_cacheGet_of_live live service.engineLog
  rw [updateCached_eq, Action.run_bind, again]
  simp only [Action.run_bind, Action.run_attempt, made, Action.run_pure]

theorem updateCached_of_not_updates (live : ((cacheGet path language).run service).1 = .ok (some old))
    (read : File.readBytes service.store path.text = .ok source) {edit : Edit}
    (fails : ¬ service.Updates old.tree edit source) :
    ∃ engineLog, (updateCached path language edit).run service =
      (.ok (some old), { service with engineLog }) := by
  obtain ⟨fault, log, failed⟩ := run_reparse_of_not_updates live read fails
  refine ⟨log, ?_⟩
  have again := run_cacheGet_of_live live service.engineLog
  rw [updateCached_eq, Action.run_bind, again]
  simp only [Action.run_bind, Action.run_attempt, failed, run_parseCached_of_live live, Action.run_pure]

end Live

section Present

variable {service : Service} {path : Path} {source : ByteArray} {modified : Binary64}

theorem current_iff (here : service.store.fileAt? path = some (source, modified)) {parsed : Parsed} :
    service.Current path parsed ↔
      parsed.source = source ∧ service.engine.shapeOf source = .ok parsed.tree.shape := by
  constructor
  · intro current
    obtain ⟨⟨time, there⟩, shaped⟩ := current
    cases there.symm.trans here
    exact ⟨rfl, shaped⟩
  · intro given
    obtain ⟨rfl, shaped⟩ := given
    exact ⟨⟨modified, here⟩, shaped⟩

theorem alike_parseAnew_iff (proper : path.Proper)
    (here : service.store.fileAt? path = some (source, modified)) {parsed : Parsed} :
    Alike Parsed.Same (.ok parsed) ((parseAnew path).run service).1 ↔ service.Current path parsed := by
  have read : File.readBytes service.store path.text = .ok source :=
    (File.readBytes_text_eq_ok_iff proper).mpr ⟨modified, here⟩
  rw [current_iff here]
  rcases service.engine.parse_cases source with ⟨fault, fails⟩ | ⟨shape, shaped, makes⟩
  · have unshaped : service.engine.shapeOf source = .error fault := by
      rw [Engine.shapeOf, fails]
      rfl
    simp only [parseAnew, Action.run_bind, run_readSource, read, run_parseSource, fails, unshaped]
    constructor
    · intro alike
      cases alike
    · intro given
      cases given.2
  · obtain ⟨tree, after, made, rfl⟩ := makes service.engineLog
    simp only [parseAnew, Action.run_bind, run_readSource, read, run_parseSource, made, Action.run_pure, shaped]
    constructor
    · intro alike
      cases alike with
      | ok same => exact ⟨same.source, congrArg _ same.shape.symm⟩
    · intro given
      obtain ⟨sources, shapes⟩ := given
      exact .ok ⟨(Except.ok.inj shapes).symm, sources⟩

end Present

def uneditable : Service :=
  { store := oneFile [97] 0
    engine := .recorded { trees := [{ source := ⟨#[97]⟩, root := default, editFault := some "" }] } }

def staleEntry : CacheEntry := ⟨"python:/f:0.0", ⟨0, some 0, default⟩, ⟨#[97]⟩, .finite 1000000⟩

def stale : Parsed := ⟨staleEntry.tree, staleEntry.source⟩

def outdated : Service :=
  { uneditable with
    store := oneFile [98] 0
    cache := { entries := [staleEntry], modified := [("python:/f:0.0", false)], size := 1 } }

theorem run_uneditable :
    (parseCached (.ofString "/f") "python").run uneditable =
      (.ok stale, { outdated with store := uneditable.store }) := by
  cbv

theorem cacheGet_outdated : ((cacheGet (.ofString "/f") "python").run outdated).1 = .ok (some stale) := by
  have keyed : outdated.keyAt? (.ofString "/f") "python" = some staleEntry.key := by
    cbv
  have young : (Value.float (outdated.clock.sub staleEntry.stamp)).exceeds
      (outdated.cache.timeToLive outdated.settings) = .ok false := by
    have younger : (Binary64.finite (300 : Int)).lt (outdated.clock.sub staleEntry.stamp) = false := by
      decide +kernel
    rw [Value.exceeds_of_numbers rfl rfl, younger]
  exact cacheGet_of_find? rfl keyed (List.find?_cons_of_pos (beq_self_eq_true staleEntry.key)) young

theorem not_updates_outdated (edit : Edit) (source : ByteArray) :
    ¬ outdated.Updates stale.tree edit source := by
  intro updates
  obtain ⟨log, edited⟩ := updates.edited
  cases edited

end Arborist.Service
