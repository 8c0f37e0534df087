import Mathlib
import Arborist.Proofs.Analysis.Recorded
import Arborist.Proofs.Analysis.Symbols

/-!
Leaving methods out.  Classes are then looked for first, and not again if there are any; whatever is asked
for, the answer is the one with methods less the functions that start in the rows of a class.
-/

namespace Arborist.Analysis

open Service (Parsed)
open Grouping

def lineCount (source : ByteArray) : Nat := (Text.boundaryLines (Text.Utf8.decode source.toList)).length

/-- A place is in the row of another or in one of the thirty after it, as far as there are lines. -/
def StartsWithin (lines : Nat) (first place : Point) : Prop :=
  (first.row : Int) ≤ place.row ∧ (place.row : Int) ≤ min ((first.row : Int) + 30) ((lines : Int) - 1)

instance (lines : Nat) (first place : Point) : Decidable (StartsWithin lines first place) :=
  inferInstanceAs (Decidable (_ ∧ _))

theorem visible_classRows (source : ByteArray) (classes : List Symbol) (symbol : Symbol) :
    visible (classRows source classes) symbol =
      classes.all fun found => !decide (StartsWithin (lineCount source) found.start symbol.start) := by
  unfold visible classRows
  rw [List.any_map, List.not_any_eq_all_not]
  refine congrArg (List.all classes) (funext fun found => ?_)
  rw [Bool.eq_iff_iff]
  simp [RowRange.holds, StartsWithin, lineCount]

theorem visible_nil (symbol : Symbol) : visible [] symbol = true := rfl

theorem shown_nil (kind : String) (symbols : List Symbol) : shown [] kind symbols = symbols := by
  unfold shown
  split
  · exact List.filter_eq_self.mpr fun symbol _ => visible_nil symbol
  · rfl

section

variable {engine : Engine} {language query : String} {parsed : Parsed}
  {queries : List (String × String)} {captures : Captures} {table filtered : SymbolTable}

theorem lookup_addKinds_nil (distinct : (queries.map Prod.fst).Nodup)
    (done : queries.foldlM (addKind engine language parsed []) [] = .ok table) {kind : String}
    (listed : (kind, query) ∈ queries) :
    ∃ symbols, kindSymbols engine language parsed kind query = .ok symbols ∧
      table.lookup kind = some symbols := by
  rcases lookup_addKinds distinct done listed with ⟨⟨-, hidden⟩, -⟩ | ⟨-, symbols, told, found⟩
  · exact absurd rfl hidden
  · rw [shown_nil] at found
    exact ⟨symbols, told, found⟩

theorem kindSymbols_classes (told : engine.capture query parsed.tree = .ok captures) :
    kindSymbols engine language parsed "classes" query =
      .ok (symbolsAmong captures "classes" parsed.source []) := by
  rw [kindSymbols_of_ne engine language parsed (by decide), told]
  rfl

theorem capture_of_kindSymbols {symbols : List Symbol}
    (told : kindSymbols engine language parsed "classes" query = .ok symbols) :
    ∃ captures, engine.capture query parsed.tree = .ok captures := by
  rw [kindSymbols_of_ne engine language parsed (by decide)] at told
  obtain ⟨captures, captured, -⟩ := Outcome.map_eq_ok_iff.mp told
  exact ⟨captures, captured⟩

/-- The two answers where classes are asked for.  `classes` are those found in the first pass. -/
theorem lookup_without (distinct : (queries.map Prod.fst).Nodup) (listed : ("classes", query) ∈ queries)
    (told : engine.capture query parsed.tree = .ok captures)
    (done : queries.foldlM (addKind engine language parsed []) [] = .ok table)
    {classes : List Symbol} (found : classes = symbolsAmong captures "classes" parsed.source [])
    (filters : queries.foldlM (addKind engine language parsed (classRows parsed.source classes))
      [("classes", classes)] = .ok filtered) (kind : String) :
    table.lookup "classes" = some classes ∧
      filtered.lookup kind =
        (table.lookup kind).map (shown (classRows parsed.source classes) kind) := by
  obtain ⟨symbols, toldClasses, inTable⟩ := lookup_addKinds_nil distinct done listed
  rw [kindSymbols_classes told, ← found] at toldClasses
  cases toldClasses
  refine ⟨inTable, ?_⟩
  by_cases asked : kind ∈ queries.map Prod.fst
  · obtain ⟨⟨name, other⟩, member, same⟩ := List.mem_map.mp asked
    obtain rfl : name = kind := same
    obtain ⟨symbols, toldKind, here⟩ := lookup_addKinds_nil distinct done member
    rcases lookup_addKinds distinct filters member with ⟨⟨rfl, -⟩, kept⟩ | ⟨goes, again, toldAgain, there⟩
    · rw [kept, inTable]
      simp [shown]
    · rw [toldKind] at toldAgain
      cases toldAgain
      -- classes are told by the second pass only if the first found none, so that none is told twice
      have nothing : under [("classes", classes)] name = [] := by
        by_cases isClasses : name = "classes"
        · have rowless : classRows parsed.source classes = [] :=
            not_not.mp fun rows => goes ⟨isClasses, rows⟩
          have classless : classes = [] := by simpa [classRows] using rowless
          simp [under, isClasses, classless]
        · simp [under, List.lookup_cons, beq_eq_false_iff_ne.mpr isClasses]
      rw [there, here, nothing]
      rfl
  · have other : kind ≠ "classes" := by
      rintro rfl
      exact asked (List.mem_map.mpr ⟨_, listed, rfl⟩)
    rw [lookup_addKinds_of_not_mem filters asked, lookup_addKinds_of_not_mem done asked]
    simp [List.lookup_cons, beq_eq_false_iff_ne.mpr other]

theorem isOk_without_iff (distinct : (queries.map Prod.fst).Nodup) (listed : ("classes", query) ∈ queries) :
    (∃ filtered, (engine.capture query parsed.tree >>= fun captures =>
        let classes := symbolsAmong captures "classes" parsed.source []
        queries.foldlM (addKind engine language parsed (classRows parsed.source classes))
          [("classes", classes)]) = .ok filtered) ↔
      ∃ table, queries.foldlM (addKind engine language parsed []) [] = .ok table := by
  constructor
  · rintro ⟨filtered, done⟩
    obtain ⟨captures, told, filters⟩ := Outcome.bind_eq_ok_iff.mp done
    refine addKinds_isOk [] fun entry member _ => ?_
    rcases lookup_addKinds distinct filters member with ⟨⟨isClasses, -⟩, -⟩ | ⟨-, symbols, found, -⟩
    · have same : entry = ("classes", query) :=
        List.inj_on_of_nodup_map distinct member listed isClasses
      rw [same]
      exact ⟨_, kindSymbols_classes told⟩
    · exact ⟨symbols, found⟩
  · rintro ⟨table, done⟩
    have told : ∀ entry ∈ queries, ∃ symbols, kindSymbols engine language parsed entry.1 entry.2 = .ok symbols := by
      intro entry member
      obtain ⟨symbols, found, -⟩ := lookup_addKinds_nil distinct done member
      exact ⟨symbols, found⟩
    obtain ⟨classes, found⟩ := told _ listed
    obtain ⟨captures, captured⟩ := capture_of_kindSymbols found
    obtain ⟨filtered, filters⟩ := addKinds_isOk _ fun entry member _ => told entry member
    exact ⟨filtered, by rw [captured]; exact filters⟩

end

section

variable {service : Service} {language : String} {queries : List (String × String)} {parsed : Parsed}

theorem isOk_symbolsIn_iff (distinct : (queries.map Prod.fst).Nodup) :
    (∃ filtered, ((symbolsIn language queries parsed true).run service).1 = .ok filtered) ↔
      ∃ table, ((symbolsIn language queries parsed false).run service).1 = .ok table := by
  rw [(asks_symbolsIn_all language queries parsed service).1]
  cases listed : queries.lookup "classes" with
  | none => rw [(asks_symbolsIn_classless language parsed listed service).1]
  | some query =>
      rw [(asks_symbolsIn_without language parsed listed service).1]
      exact isOk_without_iff distinct (mem_of_lookup listed)

theorem lookup_symbolsIn (distinct : (queries.map Prod.fst).Nodup) {table filtered : SymbolTable}
    (all : ((symbolsIn language queries parsed false).run service).1 = .ok table)
    (rest : ((symbolsIn language queries parsed true).run service).1 = .ok filtered) :
    (names table).Nodup ∧ (names filtered).Nodup ∧
      ∀ kind, filtered.lookup kind =
        (table.lookup kind).map (shown (classRows parsed.source (table.of "classes")) kind) := by
  rw [(asks_symbolsIn_all language queries parsed service).1] at all
  have empty : (names ([] : SymbolTable)).Nodup := List.nodup_nil
  have tableDistinct := nodup_addKinds empty all
  cases listed : queries.lookup "classes" with
  | none =>
      rw [(asks_symbolsIn_classless language parsed listed service).1, all] at rest
      cases rest
      refine ⟨tableDistinct, tableDistinct, fun kind => ?_⟩
      have unasked : "classes" ∉ queries.map Prod.fst := by
        rw [← names, ← lookup_isSome_iff, listed]
        simp
      have classless : table.of "classes" = [] := by
        rw [SymbolTable.of, lookup_addKinds_of_not_mem all unasked]
        rfl
      rw [classless]
      cases table.lookup kind with
      | none => rfl
      | some symbols => exact congrArg some (shown_nil kind symbols).symm
  | some query =>
      rw [(asks_symbolsIn_without language parsed listed service).1] at rest
      obtain ⟨captures, told, filters⟩ := Outcome.bind_eq_ok_iff.mp rest
      have compares := lookup_without distinct (mem_of_lookup listed) told all rfl filters
      have classes_eq : table.of "classes" = symbolsAmong captures "classes" parsed.source [] := by
        rw [SymbolTable.of, (compares "classes").1]
        rfl
      refine ⟨tableDistinct, nodup_addKinds (by simp [names]) filters, fun kind => ?_⟩
      rw [classes_eq]
      exact (compares kind).2

theorem isOk_symbolsIn_iff_kinds (distinct : (queries.map Prod.fst).Nodup) (withoutMethods : Bool) :
    (∃ table, ((symbolsIn language queries parsed withoutMethods).run service).1 = .ok table) ↔
      ∀ entry ∈ queries, ∃ symbols, kindSymbols service.engine language parsed entry.1 entry.2 = .ok symbols := by
  have withMethods : (∃ table, ((symbolsIn language queries parsed false).run service).1 = .ok table) ↔
      ∀ entry ∈ queries, ∃ symbols, kindSymbols service.engine language parsed entry.1 entry.2 = .ok symbols := by
    rw [(asks_symbolsIn_all language queries parsed service).1]
    constructor
    · rintro ⟨table, done⟩ entry member
      obtain ⟨symbols, told, -⟩ := lookup_addKinds_nil distinct done member
      exact ⟨symbols, told⟩
    · intro told
      exact addKinds_isOk [] fun entry member _ => told entry member
  cases withoutMethods with
  | false => exact withMethods
  | true => rw [isOk_symbolsIn_iff distinct, withMethods]

theorem lookup_of_symbolsIn (distinct : (queries.map Prod.fst).Nodup) {withoutMethods : Bool}
    {table : SymbolTable} (done : ((symbolsIn language queries parsed withoutMethods).run service).1 = .ok table)
    {kind : String} (notFunctions : kind ≠ "functions") :
    ∃ all, queries.foldlM (addKind service.engine language parsed []) [] = .ok all ∧
      table.lookup kind = all.lookup kind := by
  cases withoutMethods with
  | false =>
      rw [(asks_symbolsIn_all language queries parsed service).1] at done
      exact ⟨table, done, rfl⟩
  | true =>
      obtain ⟨all, told⟩ := (isOk_symbolsIn_iff distinct).mp ⟨table, done⟩
      obtain ⟨-, -, lookups⟩ := lookup_symbolsIn distinct told done
      rw [(asks_symbolsIn_all language queries parsed service).1] at told
      refine ⟨all, told, ?_⟩
      rw [lookups kind]
      cases all.lookup kind <;> simp [shown, notFunctions]

theorem kindSymbols_of_symbolsIn (distinct : (queries.map Prod.fst).Nodup) {withoutMethods : Bool}
    {table : SymbolTable} (done : ((symbolsIn language queries parsed withoutMethods).run service).1 = .ok table)
    {kind query : String} (notFunctions : kind ≠ "functions") (listed : (kind, query) ∈ queries) :
    kindSymbols service.engine language parsed kind query = .ok (table.of kind) := by
  obtain ⟨all, told, same⟩ := lookup_of_symbolsIn distinct done notFunctions
  obtain ⟨symbols, asked, found⟩ := lookup_addKinds_nil distinct told listed
  rw [asked, SymbolTable.of, same, found]
  rfl

theorem of_symbolsIn_eq_nil (distinct : (queries.map Prod.fst).Nodup) {withoutMethods : Bool}
    {table : SymbolTable} (done : ((symbolsIn language queries parsed withoutMethods).run service).1 = .ok table)
    {kind : String} (notFunctions : kind ≠ "functions") (unasked : kind ∉ queries.map Prod.fst) :
    table.of kind = [] := by
  obtain ⟨all, told, same⟩ := lookup_of_symbolsIn distinct done notFunctions
  rw [SymbolTable.of, same, lookup_addKinds_of_not_mem told unasked]
  rfl

end

/-- Asked without methods, symbols are told if and only if they are told with them, and they are the same
but for the functions that start in the rows of a class. -/
theorem withoutMethods_filters_functions (service : Service) (project : Project) (file : String)
    (kinds : Option (List String)) :
    let all := ((extractSymbols project file kinds false).run service).1
    let rest := ((extractSymbols project file kinds true).run service).1
    rest.isOk = all.isOk ∧
      ∀ table filtered, all = .ok table → rest = .ok filtered →
        (names filtered).Nodup ∧ (names filtered).Perm (names table) ∧
          (∀ kind, kind ≠ "functions" → filtered.lookup kind = table.lookup kind) ∧
          ∃ language parsed, service.Opens project file language parsed ∧
            filtered.lookup "functions" = (table.lookup "functions").map (List.filter fun symbol =>
              (table.of "classes").all fun found =>
                !decide (StartsWithin (lineCount parsed.source) found.start symbol.start)) := by
  intro all rest
  have distinct := fun language => nodup_kindQueries language (kinds.getD (standardKinds language))
  constructor
  · have alike : (∃ filtered, rest = .ok filtered) ↔ ∃ table, all = .ok table := by
      constructor
      · rintro ⟨filtered, done⟩
        obtain ⟨language, parsed, opens, nonempty, told⟩ := extractSymbols_eq_ok_iff.mp done
        obtain ⟨table, found⟩ := (isOk_symbolsIn_iff (distinct language)).mp ⟨filtered, told⟩
        exact ⟨table, extractSymbols_eq_ok_iff.mpr ⟨language, parsed, opens, nonempty, found⟩⟩
      · rintro ⟨table, done⟩
        obtain ⟨language, parsed, opens, nonempty, told⟩ := extractSymbols_eq_ok_iff.mp done
        obtain ⟨filtered, found⟩ := (isOk_symbolsIn_iff (distinct language)).mpr ⟨table, told⟩
        exact ⟨filtered, extractSymbols_eq_ok_iff.mpr ⟨language, parsed, opens, nonempty, found⟩⟩
    exact Outcome.isOk_eq_isOk alike
  · intro table filtered done filters
    obtain ⟨language, parsed, opens, -, told⟩ := extractSymbols_eq_ok_iff.mp done
    obtain ⟨language', parsed', opens', -, toldRest⟩ := extractSymbols_eq_ok_iff.mp filters
    obtain ⟨rfl, rfl⟩ := opens.eq opens'
    obtain ⟨tableDistinct, filteredDistinct, lookups⟩ := lookup_symbolsIn (distinct language) told toldRest
    refine ⟨filteredDistinct, ?_, ?_, language, parsed, opens, ?_⟩
    · refine names_perm_of_lookup filteredDistinct tableDistinct fun kind => ?_
      rw [lookups kind, Option.isSome_map]
    · intro kind notFunctions
      rw [lookups kind]
      cases table.lookup kind <;> simp [shown, notFunctions]
    · rw [lookups "functions"]
      have rows : visible (classRows parsed.source (table.of "classes")) = fun symbol =>
          (table.of "classes").all fun found =>
            !decide (StartsWithin (lineCount parsed.source) found.start symbol.start) :=
        funext fun symbol => visible_classRows parsed.source _ symbol
      rw [← rows]
      rfl

/-! A class of two rows, and a function after it. -/

def functionsQuery : String := templateOr "python" "functions"

def classesQuery : String := templateOr "python" "classes"

namespace ShortClass

def className : Node := .mk ⟨2, "identifier", 6, 7, ⟨0, 6⟩, ⟨0, 7⟩, true, some "name"⟩ []

def classNode : Node := .mk ⟨1, "class_definition", 0, 14, ⟨0, 0⟩, ⟨1, 5⟩, true, none⟩ [className]

def functionName : Node := .mk ⟨4, "identifier", 19, 20, ⟨2, 4⟩, ⟨2, 5⟩, true, some "name"⟩ []

def functionNode : Node :=
  .mk ⟨3, "function_definition", 15, 29, ⟨2, 0⟩, ⟨3, 5⟩, true, none⟩ [functionName]

def functions : Captures :=
  .list [⟨some functionNode, "function.def", .pair⟩, ⟨some functionName, "function.name", .pair⟩]

def classes : Captures :=
  .list [⟨some classNode, "class.def", .pair⟩, ⟨some className, "class.name", .pair⟩]

def record : TreeRecord where
  source := "class A:\n pass\ndef f():\n pass\n".toUTF8
  root := .mk ⟨0, "module", 0, 30, ⟨0, 0⟩, ⟨4, 0⟩, true, none⟩ [classNode, functionNode]
  captures := [(queryKey functionsQuery, functions), (queryKey classesQuery, classes)]

def parsed : Parsed := ⟨⟨0, some 0, record.root⟩, record.source⟩

open Service (shelfProject shelfService)

theorem opens : (shelfService record).Opens shelfProject "a.py" "python" parsed :=
  Service.opens_shelf (.inl rfl) (by decide +kernel) rfl (by decide +kernel) {}

theorem capture_functions :
    (shelfService record).engine.capture functionsQuery parsed.tree = .ok functions := by
  apply Service.capture_shelf
  exact List.lookup_cons_self

theorem queryKey_different : (queryKey classesQuery == queryKey functionsQuery) = false := by
  decide +kernel

theorem capture_classes : (shelfService record).engine.capture classesQuery parsed.tree = .ok classes := by
  apply Service.capture_shelf
  rw [record, List.lookup_cons, queryKey_different]
  exact List.lookup_cons_self

theorem lineCount_source : lineCount parsed.source = 4 := by decide +kernel

theorem extractSymbols_all :
    ((extractSymbols shelfProject "a.py" (some ["functions", "classes", "functions"]) false).run
      (shelfService record)).1 =
        .ok [("functions", [symbolOf "functions" parsed.source functionName]),
          ("classes", [symbolOf "classes" parsed.source className])] := by
  have queries : kindQueries "python" ["functions", "classes", "functions"] =
      [("functions", functionsQuery), ("classes", classesQuery)] := by decide +kernel
  have told : kindSymbols (shelfService record).engine "python" parsed "functions" functionsQuery =
      .ok [symbolOf "functions" parsed.source functionName] := by
    rw [kindSymbols_of_ne _ _ _ (by decide), capture_functions]
    rfl
  rw [extractSymbols_eq_ok_iff]
  refine ⟨"python", parsed, opens, ?_, ?_⟩
  · rw [Option.getD_some, queries]
    exact List.cons_ne_nil _ _
  · rw [Option.getD_some, queries, (asks_symbolsIn_all _ _ _ _).1]
    simp only [List.foldlM_cons, List.foldlM_nil, addKind, told, kindSymbols_classes capture_classes]
    rfl

/-- The function is in no class; without methods, it is left out all the same. -/
theorem function_after_class_hidden :
    ∃ filtered,
      ((extractSymbols shelfProject "a.py" (some ["functions", "classes", "functions"]) true).run
        (shelfService record)).1 = .ok filtered ∧
        filtered.lookup "functions" = some [] ∧
        filtered.lookup "classes" = some [symbolOf "classes" parsed.source className] := by
  obtain ⟨alike, compares⟩ := withoutMethods_filters_functions (shelfService record) shelfProject "a.py"
    (some ["functions", "classes", "functions"])
  rw [extractSymbols_all] at alike
  cases rest : ((extractSymbols shelfProject "a.py" (some ["functions", "classes", "functions"]) true).run
      (shelfService record)).1 with
  | error fault =>
      rw [rest] at alike
      cases alike
  | ok filtered =>
      obtain ⟨-, -, others, language, again, reopens, functions_eq⟩ :=
        compares _ filtered extractSymbols_all rest
      obtain ⟨-, rfl⟩ := opens.eq reopens
      refine ⟨filtered, rfl, ?_, ?_⟩
      · rw [functions_eq, lineCount_source]
        decide +kernel
      · rw [others "classes" (by decide)]
        rfl

end ShortClass

end Arborist.Analysis
