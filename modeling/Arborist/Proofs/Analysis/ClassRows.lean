import Mathlib
import Arborist.Proofs.Analysis.CaptureForms
import Arborist.Proofs.Analysis.MethodFilter
import Arborist.Proofs.Service.Reopening
import Arborist.Analysis.Complexity

/-!
Methods in Python files.  A function is taken for a method if its name starts in the row of a class name or
in one of the thirty after it, wherever the class ends.  So functions that follow a short class are left
out, and methods far down a long class are kept; what is told is right if and only if neither happens.
-/

namespace Arborist

def Captures.NamedAmong (captures : Captures) (names : List String) : Prop :=
  ∀ told ∈ captures.told, told.2 ∈ names

/-- Whether the extent of a node lies in that of another. -/
def Node.encloses (outer inner : Node) : Bool :=
  decide (outer.startByte ≤ inner.startByte) && decide (inner.endByte ≤ outer.endByte)

namespace Analysis

open Service (Parsed)
open Grouping

/-! The names that the two templates capture under. -/

def functionCaptures : List String := ["function.name", "function.params", "function.body", "function.def"]

def classCaptures : List String := ["class.name", "class.body", "class.def"]

theorem kindQueries_functions_classes :
    kindQueries "python" ["functions", "classes"] =
      [("functions", functionsQuery), ("classes", classesQuery)] := by
  decide +kernel

/-- A function name starts in the row of a class name or in one of the thirty after it. -/
def nearClass (classes : Captures) (lines : Nat) (node : Node) : Bool :=
  (classes.nodesOf "class.name").any fun name => decide (StartsWithin lines name.start node.start)

/-- A function name is inside a class definition. -/
def inClass (classes : Captures) (node : Node) : Bool :=
  (classes.nodesOf "class.def").any fun definition => definition.encloses node

theorem symbolsAmong_eq_nodesOf {captures : Captures} {kind name : String} {names : List String}
    (named : captures.NamedAmong names) (only : ∀ other ∈ names, namesSymbol kind other = (other == name))
    (source : ByteArray) :
    symbolsAmong captures kind source [] = (captures.nodesOf name).map (symbolOf kind source) := by
  unfold symbolsAmong Captures.nodesOf
  rw [List.map_filterMap]
  refine List.filterMap_congr fun told member => ?_
  have told_names := only told.2 (named told member)
  obtain ⟨node, capture⟩ := told
  cases node with
  | none => simp
  | some node => by_cases same : capture = name <;> simp_all

section

variable {service : Service} {project : Project} {file : String} {parsed : Parsed}
  {functions classes : Captures}

theorem functionSymbols_eq (functionsNamed : functions.NamedAmong functionCaptures) (source : ByteArray) :
    symbolsAmong functions "functions" source [] =
      (functions.nodesOf "function.name").map (symbolOf "functions" source) :=
  symbolsAmong_eq_nodesOf functionsNamed (by decide) source

theorem visible_classRows_symbolOf (classesNamed : classes.NamedAmong classCaptures) (source : ByteArray)
    (node : Node) :
    visible (classRows source (symbolsAmong classes "classes" source [])) (symbolOf "functions" source node) =
      !nearClass classes (lineCount source) node := by
  have classSymbols : symbolsAmong classes "classes" source [] =
      (classes.nodesOf "class.name").map (symbolOf "classes" source) :=
    symbolsAmong_eq_nodesOf classesNamed (by decide) source
  rw [visible_classRows, classSymbols, List.all_map, nearClass, List.not_any_eq_all_not]
  rfl

variable (opens : service.Opens project file "python" parsed)
  (askedFunctions : service.engine.capture functionsQuery parsed.tree = .ok functions)
  (askedClasses : service.engine.capture classesQuery parsed.tree = .ok classes)
  (functionsNamed : functions.NamedAmong functionCaptures) (classesNamed : classes.NamedAmong classCaptures)

include opens askedFunctions askedClasses functionsNamed classesNamed in
theorem functions_without_methods :
    ∃ table,
      ((extractSymbols project file (some ["functions", "classes"]) true).run service).1 = .ok table ∧
        table.of "functions" = ((functions.nodesOf "function.name").filter fun node =>
          !nearClass classes (lineCount parsed.source) node).map (symbolOf "functions" parsed.source) := by
  let rows := classRows parsed.source (symbolsAmong classes "classes" parsed.source [])
  let first : SymbolTable := [("classes", symbolsAmong classes "classes" parsed.source [])]
  let queries := [("functions", functionsQuery), ("classes", classesQuery)]
  have functionsTold : kindSymbols service.engine "python" parsed "functions" functionsQuery =
      .ok (symbolsAmong functions "functions" parsed.source []) := by
    rw [kindSymbols_of_ne _ _ _ (by decide), askedFunctions]
    rfl
  have told : ∀ entry ∈ queries, ¬ (entry.1 = "classes" ∧ rows ≠ []) →
      ∃ symbols, kindSymbols service.engine "python" parsed entry.1 entry.2 = .ok symbols := by
    intro entry member _
    rcases List.mem_pair.mp member with rfl | rfl
    · exact ⟨_, functionsTold⟩
    · exact ⟨_, kindSymbols_classes askedClasses⟩
  obtain ⟨table, done⟩ := addKinds_isOk first told
  have listed : queries.lookup "classes" = some classesQuery := rfl
  have ran : ((symbolsIn "python" queries parsed true).run service).1 = .ok table := by
    rw [(asks_symbolsIn_without "python" parsed listed service).1]
    dsimp only
    rw [askedClasses]
    exact done
  refine ⟨table, extractSymbols_eq_ok_iff.mpr ⟨"python", parsed, opens, ?_, ?_⟩, ?_⟩
  · rw [Option.getD_some, kindQueries_functions_classes]
    exact List.cons_ne_nil _ _
  · rw [Option.getD_some, kindQueries_functions_classes]
    exact ran
  · have distinct : (queries.map Prod.fst).Nodup := by decide
    rcases lookup_addKinds distinct done (List.mem_cons_self) with ⟨⟨isClasses, -⟩, -⟩ | ⟨-, symbols, again, found⟩
    · exact absurd isClasses (by decide)
    · rw [functionsTold] at again
      cases again
      have shownFunctions : table.of "functions" =
          (symbolsAmong functions "functions" parsed.source []).filter (visible rows) := by
        rw [SymbolTable.of, found]
        rfl
      have rows_eq : (fun node => visible rows (symbolOf "functions" parsed.source node)) =
          fun node => !nearClass classes (lineCount parsed.source) node :=
        funext (visible_classRows_symbolOf classesNamed parsed.source)
      rw [shownFunctions, functionSymbols_eq functionsNamed, List.filter_map, ← rows_eq]
      rfl

def complexityOf (language : String) (lines : List String) (table : SymbolTable) (root : Node) : Complexity where
  lineCount := lines.length
  emptyLines := lines.countP isEmptyLine
  commentLines := match commentStart? language with
    | some start => File.countCommentLines lines start
    | none => 0
  functionCount := (table.of "functions").length
  classCount := (table.of "classes").length
  cyclomatic := 1 + countKinds (decisionKinds language) root
  language

theorem analyzeComplexity_eq_ok_iff {complexity : Complexity} :
    ((analyzeComplexity project file).run service).1 = .ok complexity ↔
      ∃ language path opened after lines table, service.registry.languageOf? file = some language ∧
        ((Service.allowedPath project file).run service).1 = .ok path ∧
        (Service.openAs path language).run service = (.ok opened, after) ∧
        File.readLines after.store path.text = .ok lines ∧
        ((extractSymbols project file (some ["functions", "classes"]) true).run after).1 = .ok table ∧
        complexity = complexityOf language lines table opened.tree.root := by
  have unmoved : ((Service.allowedPath project file).run service).2 = service := by
    rw [Service.run_allowedPath]
  have opening : ∀ (path : Path) (language : String) (next : Parsed → Action Complexity), (do
      Service.loadLanguage language
      let parsed ← Service.parseCached path language
      next parsed) = Service.openAs path language >>= next := fun _ _ _ => (bind_assoc _ _ _).symm
  have read : ∀ (path : Path) (after : Service),
      (Action.onStore fun store => File.readLines store path.text).run after =
        (File.readLines after.store path.text, after) := fun _ _ => rfl
  unfold analyzeComplexity
  constructor
  · intro done
    rw [Action.run_bind_eq_ok_iff] at done
    obtain ⟨path, allowed, rest⟩ := done
    rw [unmoved, Action.run_bind_eq_ok_iff, Action.run_get] at rest
    obtain ⟨_, ⟨⟩, rest⟩ := rest
    split at rest
    · cases rest
    next language detected =>
      rw [Action.run_mapFault, Outcome.mapError_eq_ok_iff, opening, Action.run_bind_eq_ok_iff] at rest
      obtain ⟨opened, parses, rest⟩ := rest
      rw [Action.run_bind_eq_ok_iff, read] at rest
      obtain ⟨lines, isText, rest⟩ := rest
      rw [Action.run_bind_eq_ok_iff] at rest
      obtain ⟨table, told, rest⟩ := rest
      exact ⟨language, path, opened, _, lines, table, detected, allowed, Prod.ext parses rfl, isText, told,
        (Except.ok.inj rest).symm⟩
  · rintro ⟨language, path, opened, after, lines, table, detected, allowed, parses, isText, told, rfl⟩
    rw [Action.run_bind_eq_ok_iff]
    refine ⟨path, allowed, ?_⟩
    rw [unmoved, Action.run_bind_eq_ok_iff, Action.run_get]
    refine ⟨service, rfl, ?_⟩
    dsimp only
    rw [detected]
    dsimp only
    rw [Action.run_mapFault, Outcome.mapError_eq_ok_iff, opening, Action.run_bind_eq_ok_iff]
    refine ⟨opened, congrArg Prod.fst parses, ?_⟩
    rw [parses, Action.run_bind_eq_ok_iff, read]
    refine ⟨lines, isText, ?_⟩
    rw [Action.run_bind_eq_ok_iff]
    exact ⟨table, told, rfl⟩

include opens askedFunctions askedClasses functionsNamed classesNamed in
theorem functionCount_eq {complexity : Complexity}
    (done : ((analyzeComplexity project file).run service).1 = .ok complexity) :
    complexity.functionCount = (functions.nodesOf "function.name").countP fun node =>
      !nearClass classes (lineCount parsed.source) node := by
  obtain ⟨language, path, opened, after, lines, table, detected, allowed, opening, -, told, rfl⟩ :=
    analyzeComplexity_eq_ok_iff.mp done
  obtain ⟨rfl, rfl⟩ := opens.eq ⟨detected, path, allowed, congrArg Prod.fst opening⟩
  obtain ⟨onward, settled⟩ := Service.settled_of_openAs opening
  obtain ⟨language, again, reopens, -, -⟩ := extractSymbols_eq_ok_iff.mp told
  obtain rfl : "python" = language := by
    have here := reopens.language_eq
    rw [onward.languageOf?_eq, detected] at here
    exact Option.some.inj here
  have same : again.Same parsed := by
    obtain ⟨place, permitted, parses⟩ := reopens.parses
    rw [onward.run_allowedPath_eq, allowed] at permitted
    cases permitted
    exact settled.same_of_openAs parses
  have askedAgain : ∀ query, after.engine.capture query again.tree =
      service.engine.capture query parsed.tree := by
    intro query
    rw [onward.engine_eq, service.engine.capture_congr query same.shape]
  obtain ⟨table', told', functions_eq⟩ := functions_without_methods reopens
    ((askedAgain _).trans askedFunctions) ((askedAgain _).trans askedClasses) functionsNamed classesNamed
  obtain rfl : table = table' := Except.ok.inj (told.symm.trans told')
  rw [complexityOf, functions_eq, List.length_map, ← List.countP_eq_length_filter, same.source]

end

/-! Two ways to choose from a list. -/

theorem map_filter_eq_iff {kept wanted : α → Bool} {tell : α → β}
    (told : ∀ first second, tell first = tell second → kept first = kept second) (items : List α) :
    (items.filter kept).map tell = (items.filter wanted).map tell ↔
      ∀ item ∈ items, kept item = wanted item := by
  constructor
  · intro same
    have keeps : ∀ item ∈ items, wanted item = true → kept item = true := by
      intro item member isWanted
      have among : tell item ∈ (items.filter wanted).map tell :=
        List.mem_map_of_mem (List.mem_filter.mpr ⟨member, isWanted⟩)
      rw [← same] at among
      obtain ⟨other, keptOther, sameTold⟩ := List.mem_map.mp among
      rw [← told other item sameTold]
      exact (List.mem_filter.mp keptOther).2
    have narrower : items.filter wanted = (items.filter kept).filter wanted := by
      rw [List.filter_filter]
      refine List.filter_congr fun item member => ?_
      cases isWanted : wanted item with
      | false => rfl
      | true => rw [keeps item member isWanted]; rfl
    -- all that is wanted is kept, and there are not more that are kept
    have lengths := congrArg List.length same
    rw [List.length_map, List.length_map, narrower, eq_comm, List.length_filter_eq_length_iff] at lengths
    intro item member
    rw [Bool.eq_iff_iff]
    exact ⟨fun isKept => lengths item (List.mem_filter.mpr ⟨member, isKept⟩), keeps item member⟩
  · intro same
    rw [List.filter_congr same]

theorem countP_eq_iff (first second : α → Bool) (items : List α) :
    items.countP first = items.countP second ↔
      items.countP (fun item => first item && !second item) =
        items.countP fun item => second item && !first item := by
  have parts := List.countP_eq_countP_filter_add items first second
  have others := List.countP_eq_countP_filter_add items second first
  simp only [List.countP_filter] at parts others
  have both : items.countP (fun item => first item && second item) =
      items.countP fun item => second item && first item :=
    List.countP_congr fun item _ => by rw [Bool.and_comm]
  omega

/-- The functions that are told without methods are those outside classes if and only if names start near
a class exactly where they are inside one; their number is right if and only if as many are wrongly left
out as are wrongly kept. -/
theorem withoutMethods_exact_iff {service : Service} {project : Project} {file : String} {parsed : Parsed}
    {functions classes : Captures} (opens : service.Opens project file "python" parsed)
    (askedFunctions : service.engine.capture functionsQuery parsed.tree = .ok functions)
    (askedClasses : service.engine.capture classesQuery parsed.tree = .ok classes)
    (functionsNamed : functions.NamedAmong functionCaptures)
    (classesNamed : classes.NamedAmong classCaptures) :
    let names := functions.nodesOf "function.name"
    let near := nearClass classes (lineCount parsed.source)
    let inside := inClass classes
    let symbol := symbolOf "functions" parsed.source
    (∃ table,
      ((extractSymbols project file (some ["functions", "classes"]) true).run service).1 = .ok table ∧
        table.of "functions" = (names.filter fun node => !near node).map symbol ∧
        (table.of "functions" = (names.filter fun node => !inside node).map symbol ↔
          ∀ node ∈ names, near node = inside node)) ∧
      ∀ complexity, ((analyzeComplexity project file).run service).1 = .ok complexity →
        complexity.functionCount = names.countP (fun node => !near node) ∧
          (complexity.functionCount = names.countP (fun node => !inside node) ↔
            names.countP (fun node => near node && !inside node) =
              names.countP fun node => inside node && !near node) := by
  intro names near inside symbol
  constructor
  · obtain ⟨table, told, functions_eq⟩ := functions_without_methods opens askedFunctions askedClasses
      functionsNamed classesNamed
    refine ⟨table, told, functions_eq, ?_⟩
    have rowTold : ∀ first second, symbol first = symbol second → (!near first) = !near second := by
      intro first second same
      have starts : first.start = second.start := congrArg Symbol.start same
      simp only [near, nearClass, starts]
    rw [functions_eq, map_filter_eq_iff rowTold]
    exact forall₂_congr fun node _ => Bool.not_inj_iff
  · intro complexity done
    have count := functionCount_eq opens askedFunctions askedClasses functionsNamed classesNamed done
    refine ⟨count, ?_⟩
    rw [count, countP_eq_iff]
    simp only [Bool.not_not]
    rw [eq_comm]
    simp only [Bool.and_comm, near, inside, names]

open Service (shelfProject shelfService) in
theorem exists_complexity_shelf {record : TreeRecord} (light : Service.Light record.source)
    (sound : record.parseFault = none) {functions classes : Captures}
    (askedFunctions : (shelfService record).engine.capture functionsQuery ⟨0, some 0, record.root⟩ = .ok functions)
    (askedClasses : (shelfService record).engine.capture classesQuery ⟨0, some 0, record.root⟩ = .ok classes)
    (functionsNamed : functions.NamedAmong functionCaptures) (classesNamed : classes.NamedAmong classCaptures) :
    ∃ complexity, ((analyzeComplexity shelfProject "a.py").run (shelfService record)).1 = .ok complexity := by
  have detected : ({} : LanguageRegistry).languageOf? "a.py" = some "python" := by decide +kernel
  have allowed : ((Service.allowedPath shelfProject "a.py").run (shelfService record)).1 =
      .ok (.absolute ["p", "a.py"]) := by
    rw [Service.run_allowedPath]
    exact Service.grantedPath_shelf (.inl rfl) light
  obtain ⟨registry, engineLog, opening⟩ := Service.openAs_shelf (.inl rfl) sound "python" {} {}
  have onward := (Service.settled_of_openAs opening).1
  have reopens : { shelfService record with registry, engineLog }.Opens shelfProject "a.py" "python"
      ⟨⟨0, some 0, record.root⟩, record.source⟩ :=
    Service.opens_shelf (.inl rfl) light sound ((onward.languageOf?_eq "a.py").trans detected) engineLog
  obtain ⟨table, told, -⟩ := functions_without_methods reopens askedFunctions askedClasses functionsNamed
    classesNamed
  have isText : File.readLines (shelfService record).store (Path.absolute ["p", "a.py"]).text =
      .ok (File.textLines record.source) := Service.readLines_shelf (.inl rfl)
  exact ⟨_, analyzeComplexity_eq_ok_iff.mpr
    ⟨"python", _, _, _, _, table, detected, allowed, opening, isText, told, rfl⟩⟩

namespace ShortClass

open Service (shelfProject shelfService)

theorem functionsNamed : functions.NamedAmong functionCaptures := by
  unfold Captures.NamedAmong
  decide

theorem classesNamed : classes.NamedAmong classCaptures := by
  unfold Captures.NamedAmong
  decide

theorem analyzeComplexity_isOk :
    ∃ complexity, ((analyzeComplexity shelfProject "a.py").run (shelfService record)).1 = .ok complexity :=
  exists_complexity_shelf (by decide +kernel) rfl capture_functions capture_classes functionsNamed classesNamed

/-- The function is outside the class, but near it: it is neither told nor counted. -/
theorem function_after_class_uncounted :
    inClass classes functionName = false ∧
      (∃ table, ((extractSymbols shelfProject "a.py" (some ["functions", "classes"]) true).run
          (shelfService record)).1 = .ok table ∧ table.of "functions" = []) ∧
      ∃ complexity, ((analyzeComplexity shelfProject "a.py").run (shelfService record)).1 = .ok complexity ∧
        complexity.functionCount = 0 ∧ (functions.nodesOf "function.name").length = 1 := by
  obtain ⟨⟨table, told, functions_eq, -⟩, counts⟩ := withoutMethods_exact_iff opens capture_functions
    capture_classes functionsNamed classesNamed
  rw [lineCount_source] at functions_eq counts
  obtain ⟨complexity, done⟩ := analyzeComplexity_isOk
  refine ⟨by decide, ⟨table, told, ?_⟩, complexity, done, ?_, rfl⟩
  · rw [functions_eq]
    decide +kernel
  · rw [(counts complexity done).1]
    decide +kernel

end ShortClass

end Analysis

end Arborist
