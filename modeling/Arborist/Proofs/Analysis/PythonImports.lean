import Mathlib
import Arborist.Proofs.Analysis.CaptureForms
import Arborist.Proofs.Analysis.Imports
import Arborist.Proofs.Analysis.MethodFilter
import Arborist.Proofs.Analysis.Recorded

/-!
Imports in Python files.  Imports under another name are looked for by two more queries, of which only lists
are read: with dictionaries, what these queries capture is not told.
-/

namespace Arborist

open Captures (ofPairs Catalogued)
open Grouping

namespace Analysis

open Service (Parsed)

/-! The two further queries. -/

def renamedSymbols (root : Node) (source : ByteArray) (node : Node) : List Symbol :=
  symbolOf "imports" source node ::
    (((grandparentName? root node).map fun name => name.text source).filter fun text => !text.isEmpty).toList.map
      fun text => { symbolOf "imports" source node with name := text, start := ⟨node.start.row, 0⟩ }

section

variable (pairs : List (Node × String)) (root : Node) (source : ByteArray)

theorem listed_ofPairs : (ofPairs pairs).listed = pairs.map fun pair => (some pair.1, pair.2) :=
  Captures.told_ofPairs pairs

theorem renamingModules_ofPairs :
    renamingModules (ofPairs pairs) source =
      .ok (((ofPairs pairs).nodesOf "import.from").map (symbolOf "imports" source)) := by
  refine Outcome.bind_eq_ok_iff.mpr ⟨(ofPairs pairs).listed.map fun captured =>
    if captured.2 = "import.from" then captured.1.map (symbolOf "imports" source) else none,
    Outcome.mapM_eq_ok_map fun captured member => ?_, congrArg Except.ok ?_⟩
  · rw [listed_ofPairs] at member
    obtain ⟨pair, -, rfl⟩ := List.mem_map.mp member
    by_cases renames : pair.2 = "import.from"
    · simp [renames, capturedNode]
    · simp [renames]
  · rw [Captures.nodesOf, List.map_filterMap, List.filterMap_map]
    refine List.filterMap_congr fun captured _ => ?_
    by_cases renames : captured.2 = "import.from" <;> simp [renames]

theorem renamedImports_ofPairs :
    renamedImports root (ofPairs pairs) source =
      .ok (((ofPairs pairs).nodesOf "alias").flatMap (renamedSymbols root source)) := by
  refine Outcome.bind_eq_ok_iff.mpr ⟨(ofPairs pairs).listed.map fun captured =>
    if captured.2 = "alias" then (captured.1.map (renamedSymbols root source)).getD [] else [],
    Outcome.mapM_eq_ok_map fun captured member => ?_, congrArg Except.ok ?_⟩
  · rw [listed_ofPairs] at member
    obtain ⟨pair, -, rfl⟩ := List.mem_map.mp member
    by_cases renames : pair.2 = "alias"
    · cases named : grandparentName? root pair.1 with
      | none => simp [renames, capturedNode, named, renamedSymbols]
      | some name =>
          by_cases silent : name.text source = ""
          · simp [renames, capturedNode, named, renamedSymbols, silent, Option.filter_some]
          · simp [renames, capturedNode, named, renamedSymbols, silent, Option.filter_some]
    · simp [renames]
  · rw [Captures.nodesOf, ← List.flatMap_def]
    change (ofPairs pairs).told.flatMap _ = _
    induction (ofPairs pairs).told with
    | nil => rfl
    | cons captured rest ih =>
        rw [List.flatMap_cons, ih]
        obtain ⟨node, capture⟩ := captured
        by_cases renames : capture = "alias"
        · cases node <;> simp [renames]
        · simp [renames]

end

theorem renaming_of_listed_nil {captures : Captures} (unlisted : captures.listed = []) (root : Node)
    (source : ByteArray) :
    renamingModules captures source = .ok [] ∧ renamedImports root captures source = .ok [] := by
  unfold renamingModules renamedImports
  rw [unlisted]
  exact ⟨rfl, rfl⟩

def renamingSymbols (parsed : Parsed) (renamings aliases : Captures) : List Symbol :=
  (renamings.nodesOf "import.from").map (symbolOf "imports" parsed.source) ++
    (aliases.nodesOf "alias").flatMap (renamedSymbols parsed.tree.root parsed.source)

theorem renamingSymbols_eq_nil_iff (parsed : Parsed) {renamings aliases : Captures} :
    renamingSymbols parsed renamings aliases = [] ↔
      renamings.nodesOf "import.from" = [] ∧ aliases.nodesOf "alias" = [] := by
  unfold renamingSymbols
  rw [List.append_eq_nil_iff, List.map_eq_nil_iff, List.flatMap_eq_nil_iff]
  refine and_congr_right fun _ => ⟨fun silent => ?_, fun nothing node member => ?_⟩
  · rw [List.eq_nil_iff_forall_not_mem]
    intro node member
    exact List.cons_ne_nil _ _ (silent node member)
  · rw [nothing] at member
    cases member

theorem kindSymbols_imports {engine : Engine} {parsed : Parsed} {query : String}
    {captures renamings aliases : Captures} {modules renamed : List Symbol}
    (captured : engine.capture query parsed.tree = .ok captures)
    (askedRenamings : engine.capture renamingQuery parsed.tree = .ok renamings)
    (askedAliases : engine.capture aliasQuery parsed.tree = .ok aliases)
    (toldModules : renamingModules renamings parsed.source = .ok modules)
    (toldImports : renamedImports parsed.tree.root aliases parsed.source = .ok renamed) :
    kindSymbols engine "python" parsed "imports" query =
      .ok (symbolsAmong captures "imports" parsed.source [] ++ modules ++ renamed) := by
  have renames : ("imports" == "imports" && "python" == "python") = true := rfl
  unfold kindSymbols
  simp only [renames, if_true, captured, askedRenamings, askedAliases, toldModules, toldImports,
    Outcome.ok_bind, Outcome.pure_eq_ok]

/-! One kind under two engines. -/

section

variable {left right : Engine} (retold : left.Retold (fun _ => True) Catalogued right) {parsed : Parsed}
  {renamings aliases : Captures} (askedRenamings : left.capture renamingQuery parsed.tree = .ok renamings)
  (askedAliases : left.capture aliasQuery parsed.tree = .ok aliases)

include retold askedRenamings askedAliases

theorem kindSymbols_imports_alike (query : String) :
    Alike (fun symbols others => symbols.Perm (others ++ renamingSymbols parsed renamings aliases))
      (kindSymbols left "python" parsed "imports" query) (kindSymbols right "python" parsed "imports" query) := by
  obtain ⟨otherRenamings, retoldRenamings, relatedRenamings⟩ :=
    (retold.capture renamingQuery trivial parsed.tree).exists_of_ok askedRenamings
  obtain ⟨otherAliases, retoldAliases, relatedAliases⟩ :=
    (retold.capture aliasQuery trivial parsed.tree).exists_of_ok askedAliases
  have silentModules := (renaming_of_listed_nil relatedRenamings.listed_eq parsed.tree.root parsed.source).1
  have silentImports := (renaming_of_listed_nil relatedAliases.listed_eq parsed.tree.root parsed.source).2
  obtain ⟨renamingPairs, rfl, -⟩ := relatedRenamings
  obtain ⟨aliasPairs, rfl, -⟩ := relatedAliases
  have alike := retold.capture query trivial parsed.tree
  generalize captured : left.capture query parsed.tree = told at alike
  generalize recaptured : right.capture query parsed.tree = retold at alike
  cases alike with
  | error fault =>
      unfold kindSymbols
      rw [captured, recaptured]
      exact .error fault
  | ok catalogued =>
      rw [kindSymbols_imports captured askedRenamings askedAliases (renamingModules_ofPairs _ _)
          (renamedImports_ofPairs _ _ _),
        kindSymbols_imports recaptured retoldRenamings retoldAliases silentModules silentImports,
        List.append_nil, List.append_nil, List.append_assoc]
      exact .ok (.append_right _ (catalogued.told_perm.symm.filterMap _))

theorem isOk_kindSymbols_iff (kind query : String) :
    (∃ symbols, kindSymbols left "python" parsed kind query = .ok symbols) ↔
      ∃ symbols, kindSymbols right "python" parsed kind query = .ok symbols := by
  by_cases isImports : kind = "imports"
  · subst isImports
    exact (kindSymbols_imports_alike retold askedRenamings askedAliases query).exists_ok_iff
  · rw [kindSymbols_of_ne _ _ _ isImports, kindSymbols_of_ne _ _ _ isImports]
    simp only [Outcome.map_eq_ok_iff]
    have captured := (retold.capture query trivial parsed.tree).exists_ok_iff
    constructor
    · rintro ⟨_, captures, told, -⟩
      obtain ⟨others, retold⟩ := captured.mp ⟨captures, told⟩
      exact ⟨_, others, retold, rfl⟩
    · rintro ⟨_, captures, told, -⟩
      obtain ⟨others, retold⟩ := captured.mpr ⟨captures, told⟩
      exact ⟨_, others, retold, rfl⟩

end

/-! A file under two engines. -/

section

variable {service : Service} {right : Engine} {project : Project} {file : String} {parsed : Parsed}
  {renamings aliases : Captures} (opens : service.Opens project file "python" parsed)
  (retold : service.engine.Retold (fun _ => True) Catalogued right)
  (askedRenamings : service.engine.capture renamingQuery parsed.tree = .ok renamings)
  (askedAliases : service.engine.capture aliasQuery parsed.tree = .ok aliases)

section

include opens retold askedRenamings askedAliases

theorem isOk_extractSymbols_iff (kinds : Option (List String)) (withoutMethods : Bool) :
    (∃ other, ((extractSymbols project file kinds withoutMethods).run { service with engine := right }).1 =
        .ok other) ↔
      ∃ table, ((extractSymbols project file kinds withoutMethods).run service).1 = .ok table := by
  have distinct := nodup_kindQueries "python" (kinds.getD (standardKinds "python"))
  simp only [extractSymbols_eq_ok_iff_of_opens opens, extractSymbols_eq_ok_iff_of_opens (opens.swap retold),
    exists_and_left, isOk_symbolsIn_iff_kinds distinct]
  refine and_congr_right fun _ => forall₂_congr fun entry _ => ?_
  exact (isOk_kindSymbols_iff retold askedRenamings askedAliases entry.1 entry.2).symm

theorem imports_perm_iff {kinds : Option (List String)} {withoutMethods : Bool} {table other : SymbolTable}
    (told : ((extractSymbols project file kinds withoutMethods).run service).1 = .ok table)
    (toldOther : ((extractSymbols project file kinds withoutMethods).run { service with engine := right }).1 =
      .ok other) :
    (table.of "imports").Perm (other.of "imports") ↔
      ("imports" ∈ kinds.getD (standardKinds "python") →
        renamings.nodesOf "import.from" = [] ∧ aliases.nodesOf "alias" = []) := by
  have distinct := nodup_kindQueries "python" (kinds.getD (standardKinds "python"))
  have inTable := ((extractSymbols_eq_ok_iff_of_opens opens).mp told).2
  have inOther := ((extractSymbols_eq_ok_iff_of_opens (opens.swap retold)).mp toldOther).2
  by_cases asked : "imports" ∈ kinds.getD (standardKinds "python")
  · obtain ⟨query, template⟩ : ∃ query, template? "python" "imports" = some query := ⟨_, rfl⟩
    have listed := mem_kindQueries.mpr ⟨asked, template⟩
    have alike := kindSymbols_imports_alike retold askedRenamings askedAliases query
    rw [kindSymbols_of_symbolsIn distinct inTable (by decide) listed,
      kindSymbols_of_symbolsIn distinct inOther (by decide) listed] at alike
    cases alike with
    | ok perm =>
        rw [← renamingSymbols_eq_nil_iff parsed]
        constructor
        · -- the list with what the further queries add is longer, unless they add nothing
          intro same _
          have lengths := (same.symm.trans perm).length_eq
          rw [List.length_append] at lengths
          exact List.eq_nil_of_length_eq_zero (by omega)
        · intro nothing
          rw [nothing asked, List.append_nil] at perm
          exact perm
  · have unlisted : "imports" ∉ (kindQueries "python" (kinds.getD (standardKinds "python"))).map Prod.fst := by
      intro member
      obtain ⟨⟨kind, query⟩, listed, rfl⟩ := List.mem_map.mp member
      exact asked (mem_kindQueries.mp listed).1
    rw [of_symbolsIn_eq_nil distinct inTable (by decide) unlisted,
      of_symbolsIn_eq_nil distinct inOther (by decide) unlisted]
    exact iff_of_true (.refl _) fun member => absurd member asked

end

/-- Two answers about a Python file, of which the second does not look at the other names of imports. -/
structure SameButRenamed (renamed : List String) (left right : ImportTable) : Prop where
  named : ∀ category, category ≠ "module" → (category ∈ names left ↔ category ∈ names right)
  under_perm : ∀ category, category ≠ "module" → (under left category).Perm (under right category)
  modules_eq_iff : under left "module" = under right "module" ↔ ∀ text ∈ renamed, text ∈ under right "module"

theorem sameButRenamed_addModules {root : Node} {source : ByteArray} {captures others : Captures}
    (perm : captures.told.Perm others.told) (renamed : List String) :
    SameButRenamed renamed
      (addModules ((importsAmong root source captures).2 ++ renamed) (importsIn root source captures))
      (addModules (importsAmong root source others).2 (importsIn root source others)) := by
  have first := (tells_importsIn root source captures).addModules ((importsAmong root source captures).2 ++ renamed)
  have second := (tells_importsIn root source others).addModules (importsAmong root source others).2
  rw [importsAmong_snd] at first second ⊢
  have texts := importTexts_perm source perm
  refine ⟨fun category other => ?_, fun category other => ?_, ?_⟩
  · rw [importsAmong_snd, first.named category other, second.named category other, ← List.length_pos_iff,
      ← List.length_pos_iff, (texts category).length_eq]
  · rw [importsAmong_snd, first.under_eq category other, second.under_eq category other]
    exact texts category
  · rw [importsAmong_snd, first.modules_eq, second.modules_eq, sortedTexts_eq_iff]
    simp only [List.mem_append, mem_sortedTexts, (texts "module").mem_iff,
      mem_importModules_congr root source perm]
    refine forall_congr' fun text => ?_
    tauto

include opens retold askedAliases in
theorem findDependencies_sameButRenamed :
    Alike (SameButRenamed (aliasedModules parsed.tree.root parsed.source aliases))
      ((findDependencies project file).run service).1
      ((findDependencies project file).run { service with engine := right }).1 := by
  refine findDependencies_alike retold fun language query again reopens _ => ?_
  obtain ⟨rfl, rfl⟩ := opens.eq reopens
  refine (Service.agree_runQuery_swapped retold trivial parsed.tree).bind ?_
  rintro captures others ⟨-, catalogued⟩
  refine (Service.agree_runQuery_swapped retold trivial parsed.tree).bind ?_
  rintro found otherAliases ⟨captured, cataloguedAliases⟩
  obtain rfl : found = aliases := Except.ok.inj (captured.symm.trans askedAliases)
  -- a dictionary is not read, so that nothing is added to the modules of the other answer
  have unread : aliasedModules parsed.tree.root parsed.source otherAliases = [] := by
    unfold aliasedModules
    rw [cataloguedAliases.listed_eq]
    rfl
  rw [unread, List.append_nil]
  exact Action.agree_pure (sameButRenamed_addModules catalogued.told_perm.symm _)

end

/-- In a Python file, lists and dictionaries give the same imports if and only if nothing is captured by the
query for imports that rename and nothing by the query for aliases; they give the same modules if and only
if the modules that aliases belong to are all named elsewhere. -/
theorem python_imports_same_iff {service : Service} {right : Engine} {project : Project} {file : String}
    {parsed : Parsed} {renamings aliases : Captures} (opens : service.Opens project file "python" parsed)
    (retold : service.engine.Retold (fun _ => True) Catalogued right)
    (askedRenamings : service.engine.capture renamingQuery parsed.tree = .ok renamings)
    (askedAliases : service.engine.capture aliasQuery parsed.tree = .ok aliases)
    (kinds : Option (List String)) (withoutMethods : Bool) :
    let symbols := fun service => ((extractSymbols project file kinds withoutMethods).run service).1
    let imports := fun service => ((findDependencies project file).run service).1
    let other := { service with engine := right }
    (symbols other).isOk = (symbols service).isOk ∧
      (∀ table otherTable, symbols service = .ok table → symbols other = .ok otherTable →
        ((table.of "imports").Perm (otherTable.of "imports") ↔
          ("imports" ∈ kinds.getD (standardKinds "python") →
            renamings.nodesOf "import.from" = [] ∧ aliases.nodesOf "alias" = []))) ∧
      Alike (SameButRenamed (aliasedModules parsed.tree.root parsed.source aliases)) (imports service)
        (imports other) := by
  intro symbols imports other
  refine ⟨Outcome.isOk_eq_isOk ?_, fun table otherTable told toldOther => ?_, ?_⟩
  · exact isOk_extractSymbols_iff opens retold askedRenamings askedAliases kinds withoutMethods
  · exact imports_perm_iff opens retold askedRenamings askedAliases told toldOther
  · exact findDependencies_sameButRenamed opens retold askedAliases

/-! An import under another name. -/

namespace Renaming

open Service (shelfProject shelfService)

def moduleName : Node := .mk ⟨2, "dotted_name", 5, 6, ⟨0, 5⟩, ⟨0, 6⟩, true, some "module_name"⟩ []

def item : Node := .mk ⟨4, "dotted_name", 14, 15, ⟨0, 14⟩, ⟨0, 15⟩, true, some "name"⟩ []

def aliasName : Node := .mk ⟨5, "identifier", 19, 20, ⟨0, 19⟩, ⟨0, 20⟩, true, some "alias"⟩ []

def aliased : Node :=
  .mk ⟨3, "aliased_import", 14, 20, ⟨0, 14⟩, ⟨0, 20⟩, true, some "name"⟩ [item, aliasName]

def statement : Node :=
  .mk ⟨1, "import_from_statement", 0, 20, ⟨0, 0⟩, ⟨0, 20⟩, true, none⟩ [moduleName, aliased]

def record (imports renamings aliases : Captures) : TreeRecord where
  source := "from a import b as c\n".toUTF8
  root := .mk ⟨0, "module", 0, 21, ⟨0, 0⟩, ⟨1, 0⟩, true, none⟩ [statement]
  captures := [(queryKey renamingQuery, renamings), (queryKey aliasQuery, aliases),
    (queryKey (templateOr "python" "imports"), imports)]

def listed : TreeRecord := record
  (ofPairs [(statement, "import"), (moduleName, "import.from"), (item, "import.item"), (aliasName, "import.alias")])
  (ofPairs [(statement, "import"), (moduleName, "import.from")])
  (ofPairs [(aliased, "alias")])

def named : TreeRecord := record
  (.byName [("import", [some statement]), ("import.from", [some moduleName]), ("import.item", [some item]),
    ("import.alias", [some aliasName])])
  (.byName [("import", [some statement]), ("import.from", [some moduleName])])
  (.byName [("alias", [some aliased])])

def parsed : Parsed := ⟨⟨0, some 0, listed.root⟩, listed.source⟩

theorem catalogued_of_distinct {pairs : List (Node × String)} (distinct : (pairs.map Prod.snd).Nodup) :
    Catalogued (ofPairs pairs) (.byName (pairs.map fun pair => (pair.2, [some pair.1]))) :=
  ⟨pairs, rfl, .inl ⟨_, rfl, .of_distinct distinct⟩⟩

theorem retold : (shelfService listed).engine.Retold (fun _ => True) Catalogued (shelfService named).engine := by
  have nothing : Catalogued (.list []) (.list []) := ⟨[], rfl, .inr ⟨rfl, rfl⟩⟩
  refine Engine.retold_recorded _ nothing listed (.cons ⟨rfl, ?_⟩ (.cons ⟨rfl, ?_⟩ (.cons ⟨rfl, ?_⟩ .nil)))
  · exact catalogued_of_distinct (by decide)
  · exact catalogued_of_distinct (by decide)
  · exact catalogued_of_distinct (by decide)

theorem opens : (shelfService listed).Opens shelfProject "a.py" "python" parsed :=
  Service.opens_shelf (.inl rfl) (by decide +kernel) rfl (by decide +kernel) {}

theorem capture_renamings : (shelfService listed).engine.capture renamingQuery parsed.tree =
    .ok (ofPairs [(statement, "import"), (moduleName, "import.from")]) :=
  Service.capture_shelf List.lookup_cons_self

theorem capture_aliases : (shelfService listed).engine.capture aliasQuery parsed.tree =
    .ok (ofPairs [(aliased, "alias")]) := by
  have different : (queryKey aliasQuery == queryKey renamingQuery) = false := by decide +kernel
  apply Service.capture_shelf
  rw [listed, record, List.lookup_cons, different]
  exact List.lookup_cons_self

theorem extractSymbols_listed :
    ∃ table, ((extractSymbols shelfProject "a.py" (some ["imports"]) false).run (shelfService listed)).1 =
      .ok table := by
  simp only [extractSymbols_eq_ok_iff_of_opens opens, exists_and_left]
  have distinct := nodup_kindQueries "python" ["imports"]
  refine ⟨by decide, (isOk_symbolsIn_iff_kinds distinct false).mpr fun entry member => ?_⟩
  obtain ⟨kind, query⟩ := entry
  obtain rfl : kind = "imports" := List.mem_singleton.mp (mem_kindQueries.mp member).1
  exact ⟨_, kindSymbols_imports rfl capture_renamings capture_aliases (renamingModules_ofPairs _ _)
    (renamedImports_ofPairs _ _ _)⟩

/-- Given by name, the captures of the same file tell fewer imports. -/
theorem renamed_import_untold_by_name :
    let symbols := fun entry => ((extractSymbols shelfProject "a.py" (some ["imports"]) false).run
      (shelfService entry)).1
    ∃ table other, symbols listed = .ok table ∧ symbols named = .ok other ∧
      ¬ (table.of "imports").Perm (other.of "imports") := by
  intro symbols
  obtain ⟨succeeds, same_iff, -⟩ := python_imports_same_iff opens retold capture_renamings capture_aliases
    (some ["imports"]) false
  obtain ⟨table, told⟩ : ∃ table, symbols listed = .ok table := extractSymbols_listed
  have alike : (symbols named).isOk = (symbols listed).isOk := succeeds
  rw [told] at alike
  cases retells : symbols named with
  | error fault =>
      rw [retells] at alike
      cases alike
  | ok other =>
      refine ⟨table, other, told, rfl, fun perm => ?_⟩
      obtain ⟨nothing, -⟩ := (same_iff table other told retells).mp perm (List.mem_singleton.mpr rfl)
      cases nothing

end Renaming

end Analysis

end Arborist
