import Mathlib
import Arborist.Proofs.Analysis.Asking
import Arborist.Proofs.Data.Enumeration
import Arborist.Proofs.Data.Grouping

/-!
What a file depends on.  For each category but the modules an answer holds the texts of the captures of that
category in their order, and for the modules the sorted list of all that are named in any way.
-/

namespace Arborist

open Grouping

namespace Analysis

variable {texts : String → List String} {answer : ImportTable}

open Service (Parsed)

/-! Captures by category. -/

section

variable (root : Node) (source : ByteArray)

def importText? (category : String) (captured : Option Node × String) : Option String :=
  if importCategory captured.2 = category then captured.1.map fun node => node.text source else none

def importTexts (captured : List (Option Node × String)) (category : String) : List String :=
  captured.filterMap (importText? source category)

def namedModules (captured : Option Node × String) : List String :=
  (captured.1.map fun node => capturedModules root source (importCategory captured.2) node).getD []

def addImport (state : ImportTable × List String) (captured : Option Node × String) : ImportTable × List String :=
  match captured.1 with
  | none => state
  | some node =>
    (ImportTable.add (importCategory captured.2) (node.text source) state.1,
      state.2 ++ capturedModules root source (importCategory captured.2) node)

theorem importsAmong_eq_foldl (captures : Captures) :
    importsAmong root source captures = captures.told.foldl (addImport root source) ([], []) := rfl

theorem foldl_addImport_snd (captured : List (Option Node × String)) (state : ImportTable × List String) :
    (captured.foldl (addImport root source) state).2 = state.2 ++ captured.flatMap (namedModules root source) := by
  induction captured generalizing state with
  | nil => simp
  | cons one rest ih =>
      rw [List.foldl_cons, ih, List.flatMap_cons, ← List.append_assoc]
      obtain ⟨node, capture⟩ := one
      cases node with
      | none => simp [addImport, namedModules]
      | some node => rfl

variable {root source} in
theorem addImport_fst (state : ImportTable × List String) (node : Node) (capture : String) :
    (addImport root source state (some node, capture)).1 =
      enter (importCategory capture) [node.text source] state.1 :=
  addText_eq_enter _ _ _

theorem nodup_foldl_addImport (captured : List (Option Node × String)) {state : ImportTable × List String}
    (distinct : (names state.1).Nodup) : (names (captured.foldl (addImport root source) state).1).Nodup := by
  induction captured generalizing state with
  | nil => exact distinct
  | cons one rest ih =>
      obtain ⟨node, capture⟩ := one
      cases node with
      | none => exact ih distinct
      | some node =>
          refine ih ?_
          rw [addImport_fst]
          exact nodup_enter distinct

theorem under_foldl_addImport (captured : List (Option Node × String)) (state : ImportTable × List String)
    (category : String) :
    under (captured.foldl (addImport root source) state).1 category =
      under state.1 category ++ importTexts source captured category := by
  induction captured generalizing state with
  | nil => simp [importTexts]
  | cons one rest ih =>
      rw [List.foldl_cons, ih]
      obtain ⟨node, capture⟩ := one
      cases node with
      | none => simp [addImport, importTexts, importText?]
      | some node =>
          rw [addImport_fst, under, lookup_enter]
          by_cases here : category = importCategory capture
          · subst here
            simp [importTexts, importText?]
          · rw [if_neg here]
            have other : importCategory capture ≠ category := Ne.symm here
            simp [importTexts, importText?, other, under]

theorem mem_names_foldl_addImport (captured : List (Option Node × String)) (state : ImportTable × List String)
    (category : String) :
    category ∈ names (captured.foldl (addImport root source) state).1 ↔
      category ∈ names state.1 ∨ importTexts source captured category ≠ [] := by
  induction captured generalizing state with
  | nil => simp [importTexts]
  | cons one rest ih =>
      rw [List.foldl_cons, ih]
      obtain ⟨node, capture⟩ := one
      cases node with
      | none => simp [addImport, importTexts, importText?]
      | some node =>
          rw [addImport_fst, ← lookup_isSome_iff, lookup_enter, ← lookup_isSome_iff]
          by_cases here : category = importCategory capture
          · simp [importTexts, importText?, here]
          · have other : importCategory capture ≠ category := Ne.symm here
            simp [importTexts, importText?, here, other]

end

/-! Modules. -/

theorem lookup_put (category : String) (texts : List String) (table : ImportTable) (other : String) :
    (table.put category texts).lookup other = if other = category then some texts else table.lookup other := by
  induction table with
  | nil =>
      by_cases same : other = category
      · simp [ImportTable.put, same]
      · simp [ImportTable.put, List.lookup_cons, same, beq_eq_false_iff_ne.mpr same]
  | cons entry rest ih =>
      obtain ⟨first, found⟩ := entry
      by_cases here : first = category
      · by_cases same : other = category
        · simp [ImportTable.put, here, same]
        · simp [ImportTable.put, List.lookup_cons, here, same, beq_eq_false_iff_ne.mpr same]
      · by_cases same : other = first
        · simp [ImportTable.put, here, same]
        · have different : (other == first) = false := beq_eq_false_iff_ne.mpr same
          simp only [ImportTable.put, beq_eq_false_iff_ne.mpr here, Bool.false_eq_true, if_false,
            List.lookup_cons, different, ih]

theorem names_put (category : String) (texts : List String) (table : ImportTable) :
    names (table.put category texts) =
      if category ∈ names table then names table else names table ++ [category] := by
  induction table with
  | nil => rfl
  | cons entry rest ih =>
      by_cases here : entry.1 = category
      · simp [ImportTable.put, names, here]
      · unfold names at ih ⊢
        by_cases later : category ∈ rest.map Prod.fst
        · simp [ImportTable.put, here, ih, later]
        · simp [ImportTable.put, here, ih, later, Ne.symm here]

structure Holds (table : ImportTable) (texts : String → List String) : Prop where
  distinct : (names table).Nodup
  named : ∀ category, category ≠ "module" → (category ∈ names table ↔ texts category ≠ [])
  under_eq : ∀ category, category ≠ "module" → under table category = texts category

structure Tells (answer : ImportTable) (texts : String → List String) (modules : List String) : Prop
    extends Holds answer texts where
  named_module : "module" ∈ names answer ↔ modules ≠ []
  modules_eq : under answer "module" = sortedTexts modules

theorem Tells.congr {modules others : List String} (tells : Tells answer texts modules)
    (same : ∀ text, text ∈ modules ↔ text ∈ others) :
    Tells answer texts others := by
  have empty : modules = [] ↔ others = [] := by
    rw [List.eq_nil_iff_forall_not_mem, List.eq_nil_iff_forall_not_mem]
    exact forall_congr' fun text => not_congr (same text)
  refine ⟨tells.toHolds, tells.named_module.trans (not_congr empty), ?_⟩
  rw [tells.modules_eq, sortedTexts_congr same]

theorem Holds.addModules {table : ImportTable} (holds : Holds table texts) {more : List String}
    (nonempty : more ≠ []) :
    Tells (addModules more table) texts (under table "module" ++ more) := by
  have put : Analysis.addModules more table =
      table.put "module" (sortedTexts (under table "module" ++ more)) := by
    simp [Analysis.addModules, nonempty, under]
  have member : ∀ category, category ∈ names (Analysis.addModules more table) ↔
      category = "module" ∨ category ∈ names table := by
    intro category
    rw [put, ← lookup_isSome_iff, lookup_put, ← lookup_isSome_iff]
    by_cases same : category = "module" <;> simp [same]
  refine ⟨⟨?_, ?_, ?_⟩, ?_, ?_⟩
  · rw [put, names_put]
    split
    next => exact holds.distinct
    next fresh => simpa using List.Nodup.concat fresh holds.distinct
  · intro category other
    rw [member, ← holds.named category other]
    simp [other]
  · intro category other
    rw [put, under, lookup_put, if_neg other, ← holds.under_eq category other]
    rfl
  · rw [member]
    simp [nonempty]
  · rw [put, under, lookup_put, if_pos rfl]
    rfl

theorem Tells.addModules {modules : List String} (tells : Tells answer texts modules) (more : List String) :
    Tells (addModules more answer) texts (modules ++ more) := by
  cases more with
  | nil =>
      rw [List.append_nil]
      exact tells
  | cons first rest =>
      refine (tells.toHolds.addModules (List.cons_ne_nil first rest)).congr fun text => ?_
      rw [tells.modules_eq, List.mem_append, List.mem_append, mem_sortedTexts]

/-! The answer of one query. -/

section

variable (root : Node) (source : ByteArray) (captures : Captures)

def importModules : List String := captures.told.flatMap (namedModules root source)

def importsIn : ImportTable :=
  addModules (importsAmong root source captures).2 (importsAmong root source captures).1

theorem importsAmong_snd : (importsAmong root source captures).2 = importModules root source captures := by
  rw [importsAmong_eq_foldl, foldl_addImport_snd]
  rfl

theorem holds_importsAmong : Holds (importsAmong root source captures).1 (importTexts source captures.told) := by
  rw [importsAmong_eq_foldl]
  refine ⟨nodup_foldl_addImport root source _ List.nodup_nil, ?_, ?_⟩
  · intro category _
    rw [mem_names_foldl_addImport]
    simp [names]
  · intro category _
    rw [under_foldl_addImport]
    rfl

theorem under_importsAmong_module :
    under (importsAmong root source captures).1 "module" = importTexts source captures.told "module" := by
  rw [importsAmong_eq_foldl, under_foldl_addImport]
  rfl

theorem importTexts_module_eq_nil (nothing : importModules root source captures = []) :
    importTexts source captures.told "module" = [] := by
  unfold importTexts
  rw [List.filterMap_eq_nil_iff]
  rintro ⟨node, capture⟩ member
  have silent : namedModules root source (node, capture) = [] :=
    List.flatMap_eq_nil_iff.mp nothing (node, capture) member
  unfold importText?
  split
  next isModule =>
    cases node with
    | none => rfl
    | some node =>
        have named : namedModules root source (some node, capture) = [Text.stripString (node.text source)] := by
          simp [namedModules, capturedModules, isModule]
        rw [named] at silent
        cases silent
  next => rfl

theorem tells_importsIn :
    Tells (importsIn root source captures) (importTexts source captures.told)
      (importTexts source captures.told "module" ++ importModules root source captures) := by
  unfold importsIn
  rw [importsAmong_snd]
  by_cases nothing : importModules root source captures = []
  · -- the table is left as it is, with its modules unsorted; but then there are none
    have noTexts := importTexts_module_eq_nil root source captures nothing
    have same : addModules [] (importsAmong root source captures).1 = (importsAmong root source captures).1 := rfl
    rw [nothing, noTexts, same]
    refine ⟨holds_importsAmong root source captures, ?_, ?_⟩
    · rw [importsAmong_eq_foldl, mem_names_foldl_addImport, noTexts]
      simp [names]
    · rw [under_importsAmong_module, noTexts]
      simp [sortedTexts]
  · rw [← under_importsAmong_module root]
    exact (holds_importsAmong root source captures).addModules nothing

end

/-! Two answers side by side. -/

/-- Answers with the same categories and, up to their order, the same texts; their modules are the same. -/
structure SameImports (left right : ImportTable) : Prop extends Rearranged left right where
  modules_eq : under left "module" = under right "module"

theorem Tells.sameImports {left right : ImportTable} {texts others : String → List String}
    {modules more : List String} (first : Tells left texts modules) (second : Tells right others more)
    (sameTexts : ∀ category, (texts category).Perm (others category))
    (sameModules : ∀ text, text ∈ modules ↔ text ∈ more) : SameImports left right := by
  have modules_eq : under left "module" = under right "module" := by
    rw [first.modules_eq, second.modules_eq, sortedTexts_congr sameModules]
  refine ⟨⟨?_, ?_⟩, modules_eq⟩
  · rw [List.perm_ext_iff_of_nodup first.distinct second.distinct]
    intro category
    by_cases isModule : category = "module"
    · rw [isModule, first.named_module, (second.congr fun text => (sameModules text).symm).named_module]
    · rw [first.named category isModule, second.named category isModule, ← List.length_pos_iff,
        ← List.length_pos_iff, (sameTexts category).length_eq]
  · intro category
    by_cases isModule : category = "module"
    · rw [isModule, modules_eq]
    · rw [first.under_eq category isModule, second.under_eq category isModule]
      exact sameTexts category

theorem importTexts_perm (source : ByteArray) {captured others : List (Option Node × String)}
    (perm : captured.Perm others) (category : String) :
    (importTexts source captured category).Perm (importTexts source others category) :=
  perm.filterMap _

theorem mem_importModules_congr (root : Node) (source : ByteArray) {left right : Captures}
    (perm : left.told.Perm right.told) (text : String) :
    text ∈ importModules root source left ↔ text ∈ importModules root source right := by
  unfold importModules
  rw [List.mem_flatMap, List.mem_flatMap]
  exact exists_congr fun captured => and_congr_left fun _ => perm.mem_iff

theorem sameImports_importsIn (root : Node) (source : ByteArray) {left right : Captures}
    (perm : left.told.Perm right.told) : SameImports (importsIn root source left) (importsIn root source right) := by
  refine (tells_importsIn root source left).sameImports (tells_importsIn root source right)
    (importTexts_perm source perm) fun text => ?_
  rw [List.mem_append, List.mem_append, (importTexts_perm source perm "module").mem_iff,
    mem_importModules_congr root source perm]

/-! Files. -/

def askImports (language query : String) (parsed : Parsed) : Action ImportTable := do
  let captures ← Service.runQuery query parsed.tree
  let table := importsIn parsed.tree.root parsed.source captures
  if language == "python" then
    let aliases ← Service.runQuery aliasQuery parsed.tree
    return addModules ((importsAmong parsed.tree.root parsed.source captures).2 ++
      aliasedModules parsed.tree.root parsed.source aliases) table
  else return table

theorem asks_askImports (language query : String) (parsed : Parsed) :
    Action.Asks (askImports language query parsed) fun engine =>
      engine.capture query parsed.tree >>= fun captures =>
        if language == "python" then
          engine.capture aliasQuery parsed.tree >>= fun aliases =>
            .ok (addModules ((importsAmong parsed.tree.root parsed.source captures).2 ++
              aliasedModules parsed.tree.root parsed.source aliases)
                (importsIn parsed.tree.root parsed.source captures))
        else .ok (importsIn parsed.tree.root parsed.source captures) := by
  refine (Service.asks_runQuery query parsed.tree).bind fun captures => ?_
  dsimp only
  split
  · exact (Service.asks_runQuery aliasQuery parsed.tree).bind fun aliases => Action.asks_pure _
  · exact Action.asks_pure _

theorem findDependencies_eq_ok {service : Service} {project : Project} {file language query : String}
    {parsed : Parsed} (opens : service.Opens project file language parsed)
    (listed : template? language "imports" = some query)
    (told : ((askImports language query parsed).run service).1 = .ok answer) :
    ((findDependencies project file).run service).1 = .ok answer := by
  obtain ⟨detected, path, allowed, opened⟩ := opens
  unfold findDependencies
  rw [Action.run_bind_eq_ok_iff]
  refine ⟨path, allowed, ?_⟩
  rw [Service.run_allowedPath, Action.run_bind_eq_ok_iff, Action.run_get]
  refine ⟨service, rfl, ?_⟩
  dsimp only
  rw [detected]
  dsimp only
  rw [listed]
  exact (Service.opened_eq_ok_iff (asks_askImports language query)).mpr ⟨parsed, opened, told⟩

theorem findDependencies_alike {service : Service} {right : Engine} {asked : String → Prop}
    {same : Captures → Captures → Prop} (retold : service.engine.Retold asked same right)
    {project : Project} {file : String} {answers : ImportTable → ImportTable → Prop}
    (asks : ∀ language query parsed, service.Opens project file language parsed →
      template? language "imports" = some query →
      Action.Agree (Service.Swapped service.engine right) answers (askImports language query parsed)
        (askImports language query parsed)) :
    Alike answers ((findDependencies project file).run service).1
      ((findDependencies project file).run { service with engine := right }).1 := by
  unfold findDependencies
  rw [Action.run_bind, Action.run_bind, Service.run_allowedPath, Service.run_allowedPath]
  dsimp only
  cases granted : Service.grantedPath service.store service.settings project file with
  | error fault => exact .error fault
  | ok path =>
      dsimp only
      rw [Action.run_bind, Action.run_bind, Action.run_get, Action.run_get]
      dsimp only
      cases detected : service.registry.languageOf? file with
      | none => exact .error _
      | some language =>
          dsimp only
          cases listed : template? language "imports" with
          | none => exact .error _
          | some query =>
              have allowed : ((Service.allowedPath project file).run service).1 = .ok path := by
                rw [Service.run_allowedPath, granted]
              have told := Service.opened_alike retold
                (fun parsed opened => asks language query parsed ⟨detected, path, allowed, opened⟩ listed)
                (.findingDependencies file)
              exact told

end Analysis

end Arborist
