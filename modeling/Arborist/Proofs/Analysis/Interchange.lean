import Mathlib
import Arborist.Proofs.Analysis.CaptureForms
import Arborist.Proofs.Analysis.Imports
import Arborist.Proofs.Analysis.Recorded
import Arborist.Proofs.Search.CaptureOrder

/-!
The forms of captures can take each other's place.  Symbols, matches and imports are told from the captures
alone, and from nothing but their nodes and names.
-/

namespace Arborist.Analysis

open Search (queryCode CodeQuery)

def FindsImports (text : String) : Prop :=
  text = aliasQuery ∨ ∃ language, template? language "imports" = some text

theorem symbolsAmong_perm {captures others : Captures} (perm : captures.told.Perm others.told) (kind : String)
    (source : ByteArray) (hidden : List RowRange) :
    (symbolsAmong captures kind source hidden).Perm (symbolsAmong others kind source hidden) :=
  perm.filterMap _

theorem importsAmong_congr {captures others : Captures} (same : captures.told = others.told) (root : Node)
    (source : ByteArray) : importsAmong root source captures = importsAmong root source others := by
  unfold importsAmong
  rw [same]

section

variable {service : Service} {right : Engine}

theorem queryCode_respelled {query : CodeQuery}
    (retold : service.engine.Retold (· = query.query) Captures.Respelled right) (project : Project)
    (file language : Option String) :
    ((queryCode project query file language).run { service with engine := right }).1 =
      ((queryCode project query file language).run service).1 :=
  (Search.agree_queryCode_swapped retold rfl (fun respelled => respelled.told_eq.symm)
    (Search.carried_eq query.limit) project file language service _ (Service.swapped service right)).alike.eq.symm

theorem findDependencies_respelled (retold : service.engine.Retold FindsImports Captures.Respelled right)
    (project : Project) (file : String) :
    ((findDependencies project file).run { service with engine := right }).1 =
      ((findDependencies project file).run service).1 := by
  refine (findDependencies_alike retold fun language query parsed _ listed => ?_).eq.symm
  refine (Service.agree_runQuery_swapped retold (.inr ⟨language, listed⟩) parsed.tree).bind ?_
  rintro captures others ⟨-, respelled⟩
  have table_eq : importsIn parsed.tree.root parsed.source captures =
      importsIn parsed.tree.root parsed.source others := by
    unfold importsIn
    rw [importsAmong_congr respelled.told_eq]
  rw [table_eq, importsAmong_congr respelled.told_eq]
  split
  · refine (Service.agree_runQuery_swapped retold (.inl rfl) parsed.tree).bind ?_
    rintro aliases otherAliases ⟨-, respelledAliases⟩
    refine Action.agree_pure ?_
    unfold aliasedModules
    rw [respelledAliases.listed_eq]
  · exact Action.agree_pure rfl

theorem findDependencies_catalogued (retold : service.engine.Retold FindsImports Captures.Catalogued right)
    (project : Project) {file : String} (notPython : service.registry.languageOf? file ≠ some "python") :
    Alike SameImports ((findDependencies project file).run service).1
      ((findDependencies project file).run { service with engine := right }).1 := by
  refine findDependencies_alike retold fun language query parsed opens listed => ?_
  have other : (language == "python") = false := by
    rw [beq_eq_false_iff_ne]
    rintro rfl
    exact notPython opens.language_eq
  refine (Service.agree_runQuery_swapped retold (.inr ⟨language, listed⟩) parsed.tree).bind ?_
  rintro captures others ⟨-, catalogued⟩
  simp only [other, Bool.false_eq_true, if_false]
  exact Action.agree_pure (sameImports_importsIn _ _ catalogued.told_perm.symm)

end

/-- For captures that all have their nodes, other forms of list entries and entries of an unknown form change
nothing of the symbols, matches and imports that are told; a dictionary changes at most their order, as long
as no limit cuts the matches and the imports are not those of a Python file. -/
theorem capture_forms_interchangeable :
    (∀ pairs items kind source hidden, Captures.Spells pairs items →
      symbolsAmong (.list items) kind source hidden = symbolsAmong (.ofPairs pairs) kind source hidden) ∧
    (∀ pairs entries kind source hidden, Captures.Catalogue pairs entries →
      (symbolsAmong (.ofPairs pairs) kind source hidden).Perm
        (symbolsAmong (.byName entries) kind source hidden)) ∧
    (∀ (service : Service) (right : Engine) (project : Project) (query : CodeQuery)
        (file language : Option String),
      let answer := fun service => ((queryCode project query file language).run service).1
      let unlimited := ((queryCode project { query with limit := .null } file language).run service).1
      (service.engine.Retold (· = query.query) Captures.Respelled right →
        answer { service with engine := right } = answer service) ∧
      (service.engine.Retold (· = query.query) Captures.Catalogued right → answer service = unlimited →
        Alike List.Perm (answer service) (answer { service with engine := right }))) ∧
    ∀ (service : Service) (right : Engine) (project : Project) (file : String),
      let answer := fun service => ((findDependencies project file).run service).1
      (service.engine.Retold FindsImports Captures.Respelled right →
        answer { service with engine := right } = answer service) ∧
      (service.engine.Retold FindsImports Captures.Catalogued right →
        service.registry.languageOf? file ≠ some "python" →
        Alike SameImports (answer service) (answer { service with engine := right })) := by
  refine ⟨?_, ?_, ?_, ?_⟩
  · intro pairs items kind source hidden spells
    have same : (Captures.list items).told = (Captures.ofPairs pairs).told := spells.listed_eq
    unfold symbolsAmong
    rw [same]
  · intro pairs entries kind source hidden catalogue
    exact symbolsAmong_perm catalogue.told_perm.symm kind source hidden
  · intro service right project query file language
    exact ⟨fun retold => queryCode_respelled retold project file language,
      fun retold uncut => Search.queryCode_perm_of_uncut retold uncut⟩
  · intro service right project file
    exact ⟨fun retold => findDependencies_respelled retold project file,
      fun retold notPython => findDependencies_catalogued retold project notPython⟩

/-! Two imports, captured as pairs, in other forms, and by name. -/

namespace TwoImports

open Captures (ofPairs Spells Catalogue Respelled Catalogued)
open Service (Parsed shelfProject shelfService)

def declaration (id row startByte : Nat) : Node :=
  .mk ⟨id, "import_declaration", startByte, startByte + 11, ⟨row, 0⟩, ⟨row, 11⟩, true, none⟩ []

def path (id row startByte : Nat) : Node :=
  .mk ⟨id, "interpreted_string_literal", startByte + 7, startByte + 11, ⟨row, 7⟩, ⟨row, 11⟩, true, some "path"⟩ []

def pairs : List (Node × String) := [(declaration 1 0 0, "import"), (path 2 0 0, "import.path"),
  (declaration 3 1 12, "import"), (path 4 1 12, "import.path")]

def items : List Capture := [⟨some (declaration 1 0 0), "import", .object⟩, ⟨none, "", .junk⟩,
  ⟨some (path 2 0 0), "import.path", .mapping⟩, ⟨some (declaration 3 1 12), "import", .pair⟩,
  ⟨some default, "import", .triple⟩, ⟨some (path 4 1 12), "import.path", .object⟩]

def entries : List (String × List (Option Node)) := [
  ("import.path", [some (path 2 0 0), some (path 4 1 12)]),
  ("import", [some (declaration 1 0 0), some (declaration 3 1 12)])]

theorem spells : Spells pairs items := by
  refine .known _ _ rfl (.unknown rfl (.known _ _ rfl (.known _ _ rfl (.unknown rfl (.known _ _ rfl .nil)))))

theorem catalogue : Catalogue pairs entries where
  distinct := by decide
  under_eq name := by
    by_cases isPath : name = "import.path"
    · subst isPath
      rfl
    · by_cases isImport : name = "import"
      · subst isImport
        rfl
      · have silent : pairs.filter (fun pair => pair.2 = name) = [] := by
          simp [pairs, Ne.symm isPath, Ne.symm isImport]
        rw [silent]
        simp [Grouping.under, entries, List.lookup_cons, beq_eq_false_iff_ne.mpr isPath,
          beq_eq_false_iff_ne.mpr isImport]

def query : String := templateOr "go" "imports"

def record (captures : Captures) : TreeRecord where
  source := "import \"os\"\nimport \"io\"\n".toUTF8
  root := .mk ⟨0, "source_file", 0, 24, ⟨0, 0⟩, ⟨2, 0⟩, true, none⟩ [declaration 1 0 0, declaration 3 1 12]
  captures := [(queryKey query, captures)]

theorem respelled : Respelled (ofPairs pairs) (.list items) := ⟨pairs, items, rfl, rfl, spells⟩

theorem catalogued : Catalogued (ofPairs pairs) (.byName entries) :=
  ⟨pairs, rfl, .inl ⟨entries, rfl, catalogue⟩⟩

theorem respelled_nil : Respelled (.list []) (.list []) := ⟨[], [], rfl, rfl, .nil⟩

theorem catalogued_nil : Catalogued (.list []) (.list []) := ⟨[], rfl, .inr ⟨rfl, rfl⟩⟩

def table : ImportTable := importsIn (record (ofPairs pairs)).root (record (ofPairs pairs)).source (ofPairs pairs)

theorem findDependencies_pairs :
    ((findDependencies shelfProject "b.go").run (shelfService (record (ofPairs pairs)))).1 = .ok table := by
  have sound : (record (ofPairs pairs)).parseFault = none := rfl
  have detected : ({} : LanguageRegistry).languageOf? "b.go" = some "go" := by decide +kernel
  have opens := Service.opens_shelf (.inr rfl) (by decide +kernel) sound detected {}
  have listed : template? "go" "imports" = some query := rfl
  refine findDependencies_eq_ok opens listed ?_
  have captured : (shelfService (record (ofPairs pairs))).engine.capture query
      ⟨0, some 0, (record (ofPairs pairs)).root⟩ = .ok (ofPairs pairs) :=
    Service.capture_shelf List.lookup_cons_self
  rw [(asks_askImports "go" query _ _).1]
  dsimp only
  rw [captured]
  rfl

/-- Imports and symbols of the file, and the two matches of a query in another: objects, mappings and unknown
entries change nothing, and dictionaries the order at most. -/
theorem forms_of_two_imports :
    let imports := fun engine => ((findDependencies shelfProject "b.go").run
      { shelfService (record (ofPairs pairs)) with engine }).1
    let found := fun captures => ((queryCode Search.pairProject { query := "q", limit := .int 2 } (some "a.py")
      (some "python")).run { Search.pairService with
        engine := .recorded { trees := [{ Search.pairRecord with captures := [("q", captures)] }] } }).1
    imports (shelfService (record (.list items))).engine = .ok table ∧
      (∃ other, imports (shelfService (record (.byName entries))).engine = .ok other ∧
        SameImports table other) ∧
      (∀ source, symbolsAmong (.list items) "imports" source [] =
          symbolsAmong (.ofPairs pairs) "imports" source [] ∧
        (symbolsAmong (.ofPairs pairs) "imports" source []).Perm
          (symbolsAmong (.byName entries) "imports" source [])) ∧
      ∃ others, found (.byName [("n", [some default]), ("m", [some default])]) = .ok others ∧
        [Search.pairMatch "a.py" "m", Search.pairMatch "a.py" "n"].Perm others := by
  intro imports found
  obtain ⟨spelled, reordered, matched, imported⟩ := capture_forms_interchangeable
  have notPython : ({} : LanguageRegistry).languageOf? "b.go" ≠ some "python" := by decide +kernel
  have onImports := fun captures => imported (shelfService (record (ofPairs pairs)))
    (shelfService (record captures)).engine shelfProject "b.go"
  refine ⟨?_, ?_, fun source => ⟨spelled pairs items "imports" source [] spells,
    reordered pairs entries "imports" source [] catalogue⟩, ?_⟩
  · have same := (onImports (.list items)).1
      (Engine.retold_recorded _ respelled_nil (record (ofPairs pairs)) (.cons ⟨rfl, respelled⟩ .nil))
    exact same.trans findDependencies_pairs
  · have alike := (onImports (.byName entries)).2
      (Engine.retold_recorded _ catalogued_nil (record (ofPairs pairs)) (.cons ⟨rfl, catalogued⟩ .nil)) notPython
    exact alike.exists_of_ok findDependencies_pairs
  · have single : ((queryCode Search.pairProject { query := "q", limit := .null } (some "a.py")
        (some "python")).run Search.pairService).1 =
          .ok [Search.pairMatch "a.py" "m", Search.pairMatch "a.py" "n"] := Search.queryFile_pair (.inl rfl)
    have limited : ((queryCode Search.pairProject { query := "q", limit := .int 2 } (some "a.py")
        (some "python")).run Search.pairService).1 =
          .ok [Search.pairMatch "a.py" "m", Search.pairMatch "a.py" "n"] :=
      (Search.queryCode_eq_ok_iff_fits { query := "q" } Search.solid_pair single).mpr
        (show Search.Fits 2 (.int 2) from le_refl 2)
    have listed : Catalogue [(default, "m"), (default, "n")] [("n", [some default]), ("m", [some default])] := by
      refine ⟨by decide, fun name => ?_⟩
      by_cases isM : name = "m"
      · subst isM
        rfl
      · by_cases isN : name = "n"
        · subst isN
          rfl
        · simp [Grouping.under, List.lookup_cons, beq_eq_false_iff_ne.mpr isM, beq_eq_false_iff_ne.mpr isN,
            Ne.symm isM, Ne.symm isN]
    have keyed : Engine.Keyed Catalogued Search.pairRecord.captures
        [("q", .byName [("n", [some default]), ("m", [some default])])] :=
      .cons ⟨rfl, _, rfl, .inl ⟨_, rfl, listed⟩⟩ .nil
    have retold := Engine.retold_recorded (· = "q") catalogued_nil Search.pairRecord keyed
    have alike := (matched Search.pairService _ Search.pairProject { query := "q", limit := .int 2 } (some "a.py")
      (some "python")).2 retold (limited.trans single.symm)
    exact alike.exists_of_ok limited

end TwoImports

end Arborist.Analysis
