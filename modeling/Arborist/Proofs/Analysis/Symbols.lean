import Arborist.Proofs.Analysis.Asking
import Arborist.Proofs.Data.Grouping

/-!
The symbols of a file, kind by kind.  What is told of a kind depends neither on the other kinds nor on
their order; rows that are hidden take away from the functions and from nothing else.
-/

namespace Arborist.Analysis

variable {queries : List (String × String)} {table final : SymbolTable}

open Service (Parsed)
open Grouping

def visible (hidden : List RowRange) (symbol : Symbol) : Bool :=
  !hidden.any fun range => range.holds symbol.start.row

theorem symbolsAmong_eq_filter (captures : Captures) (kind : String) (source : ByteArray)
    (hidden : List RowRange) :
    symbolsAmong captures kind source hidden =
      (symbolsAmong captures kind source []).filter (visible hidden) := by
  unfold symbolsAmong
  rw [List.filter_filterMap]
  refine List.filterMap_congr fun told _ => ?_
  obtain ⟨node, capture⟩ := told
  cases node with
  | none => rfl
  | some node =>
      by_cases named : namesSymbol kind capture = true
      · have seen : visible hidden (symbolOf kind source node) =
            !hidden.any fun range => range.holds node.start.row := rfl
        cases inside : hidden.any fun range => range.holds node.start.row <;>
          simp [named, inside, Option.filter_some, seen]
      · simp [named]

/-! One kind. -/

def kindSymbols (engine : Engine) (language : String) (parsed : Parsed) (kind query : String) :
    Except Fault (List Symbol) := do
  let captures ← engine.capture query parsed.tree
  let found := symbolsAmong captures kind parsed.source []
  if kind == "imports" && language == "python" then
    let modules ← renamingModules (← engine.capture renamingQuery parsed.tree) parsed.source
    let renamed ← renamedImports parsed.tree.root (← engine.capture aliasQuery parsed.tree) parsed.source
    return found ++ modules ++ renamed
  else return found

theorem kindSymbols_of_ne (engine : Engine) (language : String) (parsed : Parsed) {kind : String}
    (notImports : kind ≠ "imports") (query : String) :
    kindSymbols engine language parsed kind query =
      (engine.capture query parsed.tree).map fun captures =>
        symbolsAmong captures kind parsed.source [] := by
  unfold kindSymbols
  simp only [beq_eq_false_iff_ne.mpr notImports, Bool.false_and, Bool.false_eq_true, if_false]
  cases engine.capture query parsed.tree <;> rfl

def shown (rows : List RowRange) (kind : String) (symbols : List Symbol) : List Symbol :=
  if kind = "functions" then symbols.filter (visible rows) else symbols

theorem asks_symbolsOfKind (language kind query : String) (parsed : Parsed) (rows : List RowRange) :
    Action.Asks (symbolsOfKind language kind query parsed (if kind == "functions" then rows else []))
      fun engine => (kindSymbols engine language parsed kind query).map (shown rows kind) := by
  by_cases functions : kind = "functions"
  · subst functions
    have told : ∀ engine : Engine,
        (kindSymbols engine language parsed "functions" query).map (shown rows "functions") =
          engine.capture query parsed.tree >>= fun captures =>
            .ok (symbolsAmong captures "functions" parsed.source rows) := by
      intro engine
      rw [kindSymbols_of_ne engine language parsed (by decide)]
      cases engine.capture query parsed.tree with
      | error fault => rfl
      | ok captures => simp [shown, Except.map, symbolsAmong_eq_filter _ _ _ rows]
    simp only [told]
    exact (Service.asks_runQuery query parsed.tree).bind fun captures => Action.asks_pure _
  · have unhidden : (if kind == "functions" then rows else []) = [] := by simp [functions]
    have unchanged : ∀ result : Except Fault (List Symbol), result.map (shown rows kind) = result := by
      intro result
      cases result <;> simp [Except.map, shown, functions]
    simp only [unhidden, unchanged]
    by_cases renames : (kind == "imports" && language == "python") = true
    · simp only [symbolsOfKind, kindSymbols, renames, if_true]
      refine (Service.asks_runQuery query parsed.tree).bind fun captures => ?_
      refine (Service.asks_runQuery renamingQuery parsed.tree).bind fun renamings => ?_
      refine (Action.asks_lift _).bind fun modules => ?_
      refine (Service.asks_runQuery aliasQuery parsed.tree).bind fun aliases => ?_
      exact (Action.asks_lift _).bind fun renamed => Action.asks_pure _
    · simp only [symbolsOfKind, kindSymbols, renames]
      exact (Service.asks_runQuery query parsed.tree).bind fun captures => Action.asks_pure _

/-! All kinds. -/

def addKind (engine : Engine) (language : String) (parsed : Parsed) (rows : List RowRange)
    (table : SymbolTable) (entry : String × String) : Except Fault SymbolTable :=
  if entry.1 = "classes" ∧ rows ≠ [] then .ok table
  else (kindSymbols engine language parsed entry.1 entry.2).map fun symbols =>
    enter entry.1 (shown rows entry.1 symbols) table

theorem asks_addKinds (language : String) (queries : List (String × String)) (parsed : Parsed)
    (rows : List RowRange) (table : SymbolTable) :
    Action.Asks
      (queries.foldlM
        (fun (table : SymbolTable) (kind, query) => do
          if kind == "classes" && !rows.isEmpty then return table
          else
            let hidden := if kind == "functions" then rows else []
            return table.add kind (← symbolsOfKind language kind query parsed hidden))
        table)
      fun engine => queries.foldlM (addKind engine language parsed rows) table := by
  refine Action.Asks.foldlM ?_ queries table
  rintro table ⟨kind, query⟩
  by_cases passed : kind = "classes" ∧ rows ≠ []
  · simp only [addKind, passed.1, passed.2, ne_eq, not_false_eq_true, and_self, if_true]
    have skips : ("classes" == "classes" && !rows.isEmpty) = true := by simp [passed.2]
    simp only [skips, if_true]
    exact Action.asks_pure table
  · have goes : (kind == "classes" && !rows.isEmpty) = false := by
      simpa using passed
    have told : ∀ engine : Engine,
        (kindSymbols engine language parsed kind query).map
            (fun symbols => enter kind (shown rows kind symbols) table) =
          (kindSymbols engine language parsed kind query).map (shown rows kind) >>= fun symbols =>
            .ok (table.add kind symbols) := by
      intro engine
      simp only [addSymbols_eq_enter]
      cases kindSymbols engine language parsed kind query <;> rfl
    simp only [addKind, passed, goes, if_false, Bool.false_eq_true, told]
    exact (asks_symbolsOfKind language kind query parsed rows).bind fun symbols => Action.asks_pure _

theorem asks_symbolsIn_all (language : String) (queries : List (String × String)) (parsed : Parsed) :
    Action.Asks (symbolsIn language queries parsed false)
      fun engine => queries.foldlM (addKind engine language parsed []) [] := by
  unfold symbolsIn
  simp only [pure_bind]
  exact asks_addKinds language queries parsed [] []

theorem asks_symbolsIn_classless (language : String) (parsed : Parsed) (missing : queries.lookup "classes" = none) :
    Action.Asks (symbolsIn language queries parsed true)
      fun engine => queries.foldlM (addKind engine language parsed []) [] := by
  unfold symbolsIn
  simp only [missing, pure_bind]
  exact asks_addKinds language queries parsed [] []

theorem asks_symbolsIn_without (language : String) (parsed : Parsed) {query : String}
    (listed : queries.lookup "classes" = some query) :
    Action.Asks (symbolsIn language queries parsed true) fun engine =>
      engine.capture query parsed.tree >>= fun captures =>
        let classes := symbolsAmong captures "classes" parsed.source []
        queries.foldlM (addKind engine language parsed (classRows parsed.source classes))
          [("classes", classes)] := by
  unfold symbolsIn
  simp only [listed, pure_bind]
  refine (Service.asks_runQuery query parsed.tree).bind fun captures => ?_
  exact asks_addKinds language queries parsed _ _

/-! What stands under each kind. -/

variable {engine : Engine} {language : String} {parsed : Parsed} {rows : List RowRange}

theorem addKind_eq_ok {table next : SymbolTable} {entry : String × String}
    (done : addKind engine language parsed rows table entry = .ok next) :
    (entry.1 = "classes" ∧ rows ≠ []) ∧ next = table ∨
      ¬ (entry.1 = "classes" ∧ rows ≠ []) ∧
        ∃ symbols, kindSymbols engine language parsed entry.1 entry.2 = .ok symbols ∧
          next = enter entry.1 (shown rows entry.1 symbols) table := by
  unfold addKind at done
  split at done
  next passed =>
    cases done
    exact .inl ⟨passed, rfl⟩
  next goes =>
    obtain ⟨symbols, told, same⟩ := Outcome.map_eq_ok_iff.mp done
    exact .inr ⟨goes, symbols, told, same.symm⟩

theorem lookup_addKinds_of_not_mem (done : queries.foldlM (addKind engine language parsed rows) table = .ok final)
    {kind : String} (unasked : kind ∉ queries.map Prod.fst) : final.lookup kind = table.lookup kind := by
  induction queries generalizing table with
  | nil =>
      cases done
      rfl
  | cons entry rest ih =>
      rw [List.foldlM_cons] at done
      obtain ⟨next, onEntry, onRest⟩ := Outcome.bind_eq_ok_iff.mp done
      simp only [List.map_cons, List.mem_cons, not_or] at unasked
      rw [ih onRest unasked.2]
      obtain ⟨-, rfl⟩ | ⟨-, symbols, -, rfl⟩ := addKind_eq_ok onEntry
      · rfl
      · rw [lookup_enter, if_neg unasked.1]

theorem lookup_addKinds (distinct : (queries.map Prod.fst).Nodup)
    (done : queries.foldlM (addKind engine language parsed rows) table = .ok final) {kind query : String}
    (listed : (kind, query) ∈ queries) :
    (kind = "classes" ∧ rows ≠ []) ∧ final.lookup kind = table.lookup kind ∨
      ¬ (kind = "classes" ∧ rows ≠ []) ∧
        ∃ symbols, kindSymbols engine language parsed kind query = .ok symbols ∧
          final.lookup kind = some (under table kind ++ shown rows kind symbols) := by
  induction queries generalizing table with
  | nil => cases listed
  | cons entry rest ih =>
      rw [List.foldlM_cons] at done
      obtain ⟨next, onEntry, onRest⟩ := Outcome.bind_eq_ok_iff.mp done
      obtain ⟨fresh, restDistinct⟩ := List.nodup_cons.mp distinct
      rcases List.mem_cons.mp listed with rfl | later
      · have kept := lookup_addKinds_of_not_mem onRest fresh
        obtain ⟨passed, rfl⟩ | ⟨goes, symbols, told, rfl⟩ := addKind_eq_ok onEntry
        · exact .inl ⟨passed, kept⟩
        · refine .inr ⟨goes, symbols, told, ?_⟩
          rw [kept, lookup_enter, if_pos rfl]
      · -- the kind is not the one entered first, so that the table it is added to is as before
        have other : kind ≠ entry.1 := by
          rintro rfl
          exact fresh (List.mem_map.mpr ⟨_, later, rfl⟩)
        have before : next.lookup kind = table.lookup kind := by
          obtain ⟨-, rfl⟩ | ⟨-, symbols, -, rfl⟩ := addKind_eq_ok onEntry
          · rfl
          · rw [lookup_enter, if_neg other]
        have sameUnder : under next kind = under table kind := by
          rw [under, under, before]
        rw [← before, ← sameUnder]
        exact ih restDistinct onRest later

theorem addKinds_isOk (table : SymbolTable)
    (told : ∀ entry ∈ queries, ¬ (entry.1 = "classes" ∧ rows ≠ []) →
      ∃ symbols, kindSymbols engine language parsed entry.1 entry.2 = .ok symbols) :
    ∃ final, queries.foldlM (addKind engine language parsed rows) table = .ok final := by
  induction queries generalizing table with
  | nil => exact ⟨table, rfl⟩
  | cons entry rest ih =>
      obtain ⟨next, onEntry⟩ : ∃ next, addKind engine language parsed rows table entry = .ok next := by
        unfold addKind
        split
        next => exact ⟨table, rfl⟩
        next goes =>
          obtain ⟨symbols, found⟩ := told entry List.mem_cons_self goes
          exact ⟨_, by rw [found]; rfl⟩
      obtain ⟨final, onRest⟩ := ih next fun other member => told other (List.mem_cons_of_mem entry member)
      exact ⟨final, by rw [List.foldlM_cons, onEntry, Outcome.ok_bind, onRest]⟩

theorem nodup_addKinds (distinct : (names table).Nodup)
    (done : queries.foldlM (addKind engine language parsed rows) table = .ok final) :
    (names final).Nodup := by
  induction queries generalizing table with
  | nil =>
      cases done
      exact distinct
  | cons entry rest ih =>
      rw [List.foldlM_cons] at done
      obtain ⟨next, onEntry, onRest⟩ := Outcome.bind_eq_ok_iff.mp done
      refine ih ?_ onRest
      obtain ⟨-, rfl⟩ | ⟨-, symbols, -, rfl⟩ := addKind_eq_ok onEntry
      · exact distinct
      · exact nodup_enter distinct

/-! Files. -/

theorem extractSymbols_eq_ok_iff {service : Service} {project : Project} {file : String}
    {kinds : Option (List String)} {withoutMethods : Bool} {table : SymbolTable} :
    ((extractSymbols project file kinds withoutMethods).run service).1 = .ok table ↔
      ∃ language parsed, service.Opens project file language parsed ∧
        kindQueries language (kinds.getD (standardKinds language)) ≠ [] ∧
        ((symbolsIn language (kindQueries language (kinds.getD (standardKinds language))) parsed
          withoutMethods).run service).1 = .ok table := by
  have asks : ∀ language queries parsed, ∃ answer,
      Action.Asks (symbolsIn language queries parsed withoutMethods) answer := by
    intro language queries parsed
    cases withoutMethods with
    | false => exact ⟨_, asks_symbolsIn_all language queries parsed⟩
    | true =>
        cases listed : queries.lookup "classes" with
        | none => exact ⟨_, asks_symbolsIn_classless language parsed listed⟩
        | some query => exact ⟨_, asks_symbolsIn_without language parsed listed⟩
  choose answer asks using asks
  unfold extractSymbols
  rw [Action.run_bind_eq_ok_iff, Service.run_allowedPath]
  constructor
  · rintro ⟨path, granted, rest⟩
    rw [Action.run_bind_eq_ok_iff, Action.run_get] at rest
    obtain ⟨_, ⟨⟩, rest⟩ := rest
    split at rest
    · cases rest
    next language detected =>
      dsimp only at rest
      split at rest
      · cases rest
      next nonempty =>
        obtain ⟨parsed, opened, told⟩ := (Service.opened_eq_ok_iff (asks language _)).mp rest
        have allowed : ((Service.allowedPath project file).run service).1 = .ok path := by
          rw [Service.run_allowedPath, granted]
        exact ⟨language, parsed, ⟨detected, path, allowed, opened⟩, by simpa using nonempty, told⟩
  · rintro ⟨language, parsed, ⟨detected, path, allowed, opened⟩, nonempty, told⟩
    rw [Service.run_allowedPath] at allowed
    refine ⟨path, allowed, ?_⟩
    rw [Action.run_bind_eq_ok_iff, Action.run_get]
    refine ⟨service, rfl, ?_⟩
    dsimp only
    rw [detected]
    dsimp only
    rw [if_neg (by simpa using nonempty)]
    exact (Service.opened_eq_ok_iff (asks language _)).mpr ⟨parsed, opened, told⟩

theorem extractSymbols_eq_ok_iff_of_opens {service : Service} {project : Project} {file language : String}
    {parsed : Parsed} (opens : service.Opens project file language parsed) {kinds : Option (List String)}
    {withoutMethods : Bool} {table : SymbolTable} :
    ((extractSymbols project file kinds withoutMethods).run service).1 = .ok table ↔
      kindQueries language (kinds.getD (standardKinds language)) ≠ [] ∧
        ((symbolsIn language (kindQueries language (kinds.getD (standardKinds language))) parsed
          withoutMethods).run service).1 = .ok table := by
  rw [extractSymbols_eq_ok_iff]
  constructor
  · rintro ⟨other, again, reopens, told⟩
    obtain ⟨rfl, rfl⟩ := opens.eq reopens
    exact told
  · exact fun told => ⟨language, parsed, opens, told⟩

theorem mem_kindQueries {language kind query : String} {kinds : List String} :
    (kind, query) ∈ kindQueries language kinds ↔ kind ∈ kinds ∧ template? language kind = some query := by
  unfold kindQueries
  rw [List.mem_filterMap]
  constructor
  · rintro ⟨other, member, told⟩
    obtain ⟨text, found, same⟩ := Option.map_eq_some_iff.mp told
    cases same
    exact ⟨List.mem_eraseDups.mp member, found⟩
  · rintro ⟨member, found⟩
    exact ⟨kind, List.mem_eraseDups.mpr member, by rw [found]; rfl⟩

theorem nodup_kindQueries (language : String) (kinds : List String) :
    ((kindQueries language kinds).map Prod.fst).Nodup := by
  have kept : (kindQueries language kinds).map Prod.fst =
      kinds.eraseDups.filter fun kind => (template? language kind).isSome := by
    unfold kindQueries
    rw [List.map_filterMap, ← List.filterMap_eq_filter]
    refine List.filterMap_congr fun kind _ => ?_
    cases found : template? language kind <;> simp [Option.guard, found]
  rw [kept]
  exact List.Nodup.filter _ (nodup_eraseDups kinds)

end Arborist.Analysis
