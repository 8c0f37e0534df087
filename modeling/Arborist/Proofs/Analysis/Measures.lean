import Mathlib
import Arborist.Proofs.Analysis.ClassRows
import Arborist.Proofs.Analysis.Recorded
import Arborist.Proofs.File.LineEnds
import Arborist.Proofs.Service.SearchAccess
import Arborist.Proofs.Tree.Visits

/-!
What is measured of a file.  Every line is blank, a comment or code, and only one of these; the decisions that
are counted on the way down the tree are the nodes that a walk finds; and the lines are as many as those of the
bytes.
-/

namespace Arborist

namespace Analysis

open Service (Parsed)

theorem countP_or {first second : α → Bool} {items : List α}
    (apart : ∀ item ∈ items, first item = true → second item = false) :
    items.countP (fun item => first item || second item) = items.countP first + items.countP second := by
  induction items with
  | nil => rfl
  | cons item rest ih =>
      have onRest := ih fun later member => apart later (List.mem_cons_of_mem item member)
      rw [List.countP_cons, List.countP_cons, List.countP_cons, onRest]
      cases isFirst : first item with
      | true =>
          rw [apart item List.mem_cons_self isFirst]
          simp only [Bool.or_false, if_true, Bool.false_eq_true, if_false]
          omega
      | false =>
          rw [Bool.false_or]
          simp only [Bool.false_eq_true, if_false]
          omega

/-! Decisions. -/

mutual

theorem countKinds_eq_countP (kinds : List String) :
    ∀ node, countKinds kinds node = node.preorder.countP fun place => kinds.contains place.kind
  | .mk label children => by
      rw [countKinds, countKindsIn_eq_countP kinds children, Node.preorder, List.countP_cons, Nat.add_comm]
      rfl

theorem countKindsIn_eq_countP (kinds : List String) :
    ∀ nodes, countKindsIn kinds nodes = (Node.preorders nodes).countP fun place => kinds.contains place.kind
  | [] => rfl
  | node :: rest => by
      rw [countKindsIn, countKinds_eq_countP kinds node, countKindsIn_eq_countP kinds rest, Node.preorders,
        List.countP_append]

end

theorem countP_contains {kinds : List String} (distinct : kinds.Nodup) (key : α → String) (items : List α) :
    items.countP (fun item => kinds.contains (key item)) =
      (kinds.map fun kind => items.countP fun item => key item == kind).sum := by
  induction kinds with
  | nil => simp
  | cons first others ih =>
      rw [List.nodup_cons] at distinct
      have apart : ∀ item ∈ items, (key item == first) = true → others.contains (key item) = false := by
        intro item _ isFirst
        rw [eq_of_beq isFirst]
        simpa using distinct.1
      simp only [List.contains_cons]
      rw [countP_or apart, ih distinct.2, List.map_cons, List.sum_cons]

theorem countKinds_eq_sum {kinds : List String} (distinct : kinds.Nodup) (root : Node) :
    countKinds kinds root = (kinds.map fun kind => (root.ofKind kind).length).sum := by
  simp only [countKinds_eq_countP, countP_contains distinct, Node.ofKind_eq_filter, List.countP_eq_length_filter]

/-! Lines. -/

def isComment (language line : String) : Bool := (commentStart? language).any (File.isCommentLine line)

theorem holds_of_lookup (holds : String → Prop) {table : List (String × String)} {name text : String}
    (all : ∀ entry ∈ table, holds entry.2) (found : table.lookup name = some text) : holds text := by
  obtain ⟨before, after, rfl, -⟩ := List.lookup_eq_some_iff.mp found
  exact all (name, text) (by simp)

theorem commentStart?_ne_empty {language start : String} (known : commentStart? language = some start) :
    start.toList ≠ [] :=
  holds_of_lookup (fun start => start.toList ≠ []) (by decide) known

theorem not_isComment_of_isEmptyLine {line : String} (blank : isEmptyLine line = true) (language : String) :
    isComment language line = false := by
  unfold isComment
  cases known : commentStart? language with
  | none => rfl
  | some start =>
      have stripped : Text.strip line.toList = [] := List.isEmpty_iff.mp blank
      rw [Option.any_some, File.isCommentLine, stripped, Bool.eq_false_iff, ne_eq, List.isPrefixOf_iff_prefix,
        List.prefix_nil]
      exact commentStart?_ne_empty known

theorem commentLines_complexityOf (language : String) (lines : List String) (table : SymbolTable) (root : Node) :
    (complexityOf language lines table root).commentLines = lines.countP (isComment language) := by
  unfold complexityOf isComment
  cases commentStart? language with
  | none => simp
  | some start => rfl

theorem length_eq_add_countP (language : String) (lines : List String) :
    lines.length = lines.countP (fun line => !isEmptyLine line && !isComment language line) +
      lines.countP isEmptyLine + lines.countP (isComment language) := by
  have apart := @countP_or _ isEmptyLine (isComment language) lines
    fun line _ blank => not_isComment_of_isEmptyLine blank language
  have parts := List.length_eq_countP_add_countP (fun line => isEmptyLine line || isComment language line)
    (l := lines)
  have others : lines.countP (fun line => !isEmptyLine line && !isComment language line) =
      lines.countP fun line => ¬ (isEmptyLine line || isComment language line) = true :=
    List.countP_congr fun line _ => by simp
  omega

section

variable {service : Service} {project : Project} {file : String} {complexity : Complexity}

theorem exists_of_analyzeComplexity (measured : ((analyzeComplexity project file).run service).1 = .ok complexity) :
    ∃ language path parsed lines table, service.Opens project file language parsed ∧
      ((Service.allowedPath project file).run service).1 = .ok path ∧
      File.readLines service.store path.text = .ok lines ∧
      complexity = complexityOf language lines table parsed.tree.root := by
  obtain ⟨language, path, parsed, after, lines, table, detected, allowed, opening, isText, -, rfl⟩ :=
    analyzeComplexity_eq_ok_iff.mp measured
  rw [(Service.settled_of_openAs opening).1.store_eq] at isText
  exact ⟨language, path, parsed, lines, table, ⟨detected, path, allowed, congrArg Prod.fst opening⟩, allowed,
    isText, rfl⟩

theorem cyclomatic_complexityOf (language : String) (lines : List String) (table : SymbolTable) (root : Node) :
    (complexityOf language lines table root).cyclomatic =
      1 + if language ∈ ["python", "javascript", "typescript"] then
        (["if_statement", "for_statement", "while_statement", "try_statement"].map fun kind =>
          (root.ofKind kind).length).sum
      else 0 := by
  have distinct : (decisionKinds language).Nodup := by
    unfold decisionKinds
    split <;> decide
  rw [complexityOf, countKinds_eq_sum distinct, decisionKinds]
  simp only [List.contains_iff_mem]
  split <;> rfl

/-- Whenever a file is measured, its lines are parted into blank lines, comments and code, and the decisions
are the nodes of the four kinds in three languages, and none in the others. -/
theorem measures_consistent (measured : ((analyzeComplexity project file).run service).1 = .ok complexity) :
    ∃ path parsed lines, ((Service.allowedPath project file).run service).1 = .ok path ∧
      service.Opens project file complexity.language parsed ∧
      File.readLines service.store path.text = .ok lines ∧
      complexity.lineCount = lines.length ∧
      complexity.emptyLines = lines.countP isEmptyLine ∧
      complexity.commentLines = lines.countP (isComment complexity.language) ∧
      complexity.codeLines =
        lines.countP (fun line => !isEmptyLine line && !isComment complexity.language line) ∧
      (complexity.lineCount : Int) = complexity.codeLines + complexity.emptyLines + complexity.commentLines ∧
      0 ≤ complexity.codeLines ∧ complexity.commentLines ≤ complexity.lineCount ∧
      complexity.cyclomatic =
        1 + if complexity.language ∈ ["python", "javascript", "typescript"] then
          (["if_statement", "for_statement", "while_statement", "try_statement"].map fun kind =>
            (parsed.tree.root.ofKind kind).length).sum
        else 0 := by
  obtain ⟨language, path, parsed, lines, table, opens, allowed, isText, rfl⟩ := exists_of_analyzeComplexity measured
  have comments := commentLines_complexityOf language lines table parsed.tree.root
  have parts := length_eq_add_countP language lines
  have code : (complexityOf language lines table parsed.tree.root).codeLines =
      lines.countP (fun line => !isEmptyLine line && !isComment language line) := by
    unfold Complexity.codeLines
    rw [comments]
    simp only [complexityOf]
    omega
  refine ⟨path, parsed, lines, allowed, opens, isText, rfl, rfl, comments, code, ?_, ?_, ?_,
    cyclomatic_complexityOf language lines table parsed.tree.root⟩
  · unfold Complexity.codeLines
    omega
  · rw [code]
    omega
  · rw [comments]
    exact List.countP_le_length

end

/-! The number of lines. -/

section

variable {service : Service} {project : Project} {path : String} {file : Path} {bytes : ByteArray}

theorem readable_of_allowed (allowed : ((Service.allowedPath project path).run service).1 = .ok file) :
    ((Service.readablePath project path).run service).1 = .ok file := by
  rw [Service.run_allowedPath, Service.grantedPath] at allowed
  obtain ⟨found, accepted, rest⟩ := Outcome.bind_eq_ok_iff.mp allowed
  obtain ⟨_, granted, same⟩ := Outcome.bind_eq_ok_iff.mp rest
  cases same
  exact Service.readablePath_eq_ok_iff.mpr ⟨accepted, Outcome.mapError_eq_ok_iff.mp granted⟩

theorem describeFile_lineCount (rootProper : project.root.Proper)
    (readable : ((Service.readablePath project path).run service).1 = .ok file)
    (stored : File.readBytes service.store file.text = .ok bytes) :
    ∃ info, ((Service.describeFile project path).run service).1 = .ok info ∧
      info.lineCount = some (Text.byteLines bytes.toList).length := by
  have proper := Project.filePath_proper rootProper (Service.readablePath_eq_ok_iff.mp readable).1
  obtain ⟨modified, here⟩ := (File.readBytes_text_eq_ok_iff proper).mp stored
  obtain ⟨place, located⟩ := Store.fileAt?_eq_some_iff.mp here
  have read : service.store.readBytes file.text = .ok bytes := Outcome.mapError_eq_ok_iff.mp stored
  have unchanged : ((Service.readablePath project path).run service).2 = service := by
    rw [Service.run_readablePath]
  have counted : (Service.countLines file.text).run service =
      (.ok (Text.byteLines bytes.toList).length, service) := by
    unfold Service.countLines
    rw [Action.run_bind, Action.run_get]
    dsimp only
    rw [read]
    rfl
  refine ⟨⟨path, some bytes.size, some modified, false,
    if file.suffix.isEmpty then none else some file.extension, some (Text.byteLines bytes.toList).length⟩, ?_, rfl⟩
  unfold Service.describeFile
  rw [Action.run_bind_eq_ok_iff]
  refine ⟨file, readable, ?_⟩
  rw [unchanged, Action.run_bind, Action.run_get]
  dsimp only
  rw [located]
  dsimp only
  rw [pure_bind, Action.run_bind, counted]
  rfl

/-- If returns stand only before feeds, a file has the same number of lines whichever way they are counted. -/
theorem line_counts_agree (rootProper : project.root.Proper)
    (readable : ((Service.readablePath project path).run service).1 = .ok file)
    (stored : File.readBytes service.store file.text = .ok bytes)
    (paired : ReturnsBeforeFeeds bytes.toList) :
    ∃ lines info, File.readLines service.store file.text = .ok lines ∧
      ((Service.describeFile project path).run service).1 = .ok info ∧ info.lineCount = some lines.length ∧
      ∀ complexity, ((analyzeComplexity project path).run service).1 = .ok complexity →
        complexity.lineCount = lines.length := by
  have lines : File.readLines service.store file.text = .ok (File.textLines bytes) := by
    rw [File.readLines, stored]
    rfl
  obtain ⟨info, described, counted⟩ := describeFile_lineCount rootProper readable stored
  refine ⟨_, info, lines, described, ?_, ?_⟩
  · rw [counted, File.length_textLines paired]
  · intro complexity measured
    obtain ⟨language, place, parsed, others, table, -, allowed, isText, rfl⟩ := exists_of_analyzeComplexity measured
    obtain rfl := Except.ok.inj (readable.symm.trans (readable_of_allowed allowed))
    rw [lines] at isText
    cases isText
    rfl

end

/-! A file with a comment, a blank line and bytes that are no text. -/

namespace MixedLines

open Service (shelfProject shelfService)

def inner : Node := .mk ⟨2, "while_statement", 6, 7, ⟨2, 2⟩, ⟨2, 3⟩, true, none⟩ []

def record : TreeRecord where
  source := ⟨#[35, 13, 10, 10, 105, 102, 195, 10, 120]⟩
  root := .mk ⟨0, "module", 0, 9, ⟨0, 0⟩, ⟨3, 1⟩, true, none⟩
    [.mk ⟨1, "if_statement", 4, 7, ⟨2, 0⟩, ⟨2, 3⟩, true, none⟩ [inner]]

theorem light : Service.Light record.source := by decide +kernel

theorem textLines_record : File.textLines record.source = ["#\n", "\n", "if\uFFFD\n", "x"] := by
  rw [File.textLines, File.plainText, byteList_eq]
  decide +kernel

theorem opens : (shelfService record).Opens shelfProject "a.py" "python" ⟨⟨0, some 0, record.root⟩, record.source⟩ :=
  Service.opens_shelf (.inl rfl) light rfl (by decide +kernel) {}

theorem allowed : ((Service.allowedPath shelfProject "a.py").run (shelfService record)).1 =
    .ok (.absolute ["p", "a.py"]) := by
  rw [Service.run_allowedPath]
  exact Service.grantedPath_shelf (.inl rfl) light

theorem isText : File.readLines (shelfService record).store (Path.absolute ["p", "a.py"]).text =
    .ok ["#\n", "\n", "if\uFFFD\n", "x"] := by
  rw [← textLines_record]
  exact Service.readLines_shelf (.inl rfl)

theorem exists_complexity :
    ∃ complexity, ((analyzeComplexity shelfProject "a.py").run (shelfService record)).1 = .ok complexity :=
  exists_complexity_shelf light rfl rfl rfl nofun nofun

/-- Of four lines two are code, and there are two decisions, one inside the other. -/
theorem two_decisions_in_four_lines :
    ∃ complexity, ((analyzeComplexity shelfProject "a.py").run (shelfService record)).1 = .ok complexity ∧
      complexity.lineCount = 4 ∧ complexity.emptyLines = 1 ∧ complexity.commentLines = 1 ∧
      complexity.codeLines = 2 ∧ complexity.cyclomatic = 3 := by
  obtain ⟨complexity, measured⟩ := exists_complexity
  obtain ⟨path, parsed, lines, permitted, reopens, read, count, blank, comments, code, -, -, -, decisions⟩ :=
    measures_consistent measured
  obtain ⟨python, rfl⟩ := opens.eq reopens
  obtain rfl := Except.ok.inj (allowed.symm.trans permitted)
  obtain rfl := Except.ok.inj (isText.symm.trans read)
  rw [← python] at comments code decisions
  refine ⟨complexity, measured, count, blank.trans ?_, comments.trans ?_, code.trans ?_, decisions.trans ?_⟩
  · decide
  · decide
  · decide
  · simp only [Node.ofKind_eq_filter]
    decide

/-- Every way of counting finds four lines, though one has a return before its feed, one a byte that is no text,
and the last no end. -/
theorem four_lines_counted_alike :
    ReturnsBeforeFeeds record.source.toList ∧
      ∃ lines info complexity,
        File.readLines (shelfService record).store (Path.absolute ["p", "a.py"]).text = .ok lines ∧
        ((Service.describeFile shelfProject "a.py").run (shelfService record)).1 = .ok info ∧
        ((analyzeComplexity shelfProject "a.py").run (shelfService record)).1 = .ok complexity ∧
        lines.length = 4 ∧ info.lineCount = some 4 ∧ complexity.lineCount = 4 := by
  have paired : ReturnsBeforeFeeds record.source.toList := by
    rw [byteList_eq]
    decide
  have stored : File.readBytes (shelfService record).store (Path.absolute ["p", "a.py"]).text = .ok record.source :=
    (File.readBytes_text_eq_ok_iff (Service.proper_shelf (.inl rfl))).mpr ⟨_, Service.fileAt?_shelf (.inl rfl)⟩
  obtain ⟨complexity, measured⟩ := exists_complexity
  obtain ⟨lines, info, read, described, counted, agrees⟩ :=
    line_counts_agree (by decide) (readable_of_allowed allowed) stored paired
  obtain rfl := Except.ok.inj (isText.symm.trans read)
  exact ⟨paired, _, info, complexity, read, described, measured, rfl, counted, agrees complexity measured⟩

end MixedLines

end Analysis

end Arborist
