import Mathlib
import Arborist.Proofs.File.LineEnds
import Arborist.Proofs.Service.SearchAccess
import Arborist.Service.Files

/-!
Reading a file by pages.  The lines from any place on are the same for every name of a file, and pages of one
size, laid end to end up to the first empty one, are the whole file, as text or as bytes.
-/

namespace Arborist.Service

/-! Ranges of lines. -/

theorem itemRange_natCast (items : List α) (start stop : Nat) :
    Search.itemRange items start stop = (items.drop start).take (stop - start) := by
  have clamped : ∀ index : Nat, Search.clampIndex items.length index = min index items.length := by
    intro index
    rw [Search.clampIndex, if_neg (by omega), Int.toNat_natCast]
  rw [Search.itemRange, clamped, clamped, ← List.drop_take, List.take_eq_take_min (i := stop)]
  rcases Nat.le_total start items.length with inside | beyond
  · rw [Nat.min_eq_left inside]
  · rw [Nat.min_eq_right beyond, List.drop_eq_nil_of_le (by simp), List.drop_eq_nil_of_le (by simp; omega)]

theorem lineRange_natCast (lines : List α) (start count : Nat) :
    lineRange lines start (some (count : Int)) = (lines.drop start).take count := by
  have first : min (start : Int) lines.length = (min start lines.length : Nat) := by omega
  have last : min (((min start lines.length : Nat) : Int) + count) lines.length =
      (min (min start lines.length + count) lines.length : Nat) := by omega
  simp only [lineRange, first, last, itemRange_natCast]
  rcases Nat.le_total start lines.length with inside | beyond
  · rw [Nat.min_eq_left inside, List.take_eq_take_iff, List.length_drop]
    omega
  · rw [Nat.min_eq_right beyond, List.drop_eq_nil_of_le le_rfl, List.drop_eq_nil_of_le beyond, List.take_nil,
      List.take_nil]

theorem testRange_eq_lineRange (lines : List α) (start count : Int) :
    testRange lines start count = lineRange lines start (some count) := by
  unfold testRange
  split
  next first =>
    obtain ⟨rfl, rfl⟩ : count = 2 ∧ start = 0 := by simpa using first
    exact (itemRange_natCast lines 0 2).trans (lineRange_natCast lines 0 2).symm
  next => rfl

theorem textRange_eq_lineRange (path : String) (lines : List α) (start : Int) (count : Option Int) :
    textRange path lines start count = lineRange lines start count := by
  cases count with
  | none => rfl
  | some count =>
      unfold textRange
      dsimp only
      rw [testRange_eq_lineRange, ite_self]

theorem lineRange_zero_none (lines : List α) : lineRange lines 0 none = lines := by
  have first : min (0 : Int) lines.length = (0 : Nat) := by omega
  simp only [lineRange, first, itemRange_natCast]
  rw [List.drop_zero, Nat.sub_zero, List.take_length]

theorem whole_or_lineRange {whole : β} {lines : List α} {join : List α → β} (joins : join lines = whole)
    (count : Option Int) (start : Int) :
    (if count.isNone && start == 0 then whole else join (lineRange lines start count)) =
      join (lineRange lines start count) := by
  split
  next all =>
    obtain ⟨rfl, rfl⟩ : count = none ∧ start = 0 := by simpa using all
    rw [lineRange_zero_none, joins]
  next => rfl

/-! Pages. -/

def pageOf (lines : List α) (size number : Nat) : List α := (lines.drop (number * size)).take size

theorem flatMap_pageOf (lines : List α) (size count : Nat) :
    (List.range count).flatMap (pageOf lines size) = lines.take (count * size) := by
  induction count with
  | zero => rw [Nat.zero_mul, List.take_zero, List.range_zero, List.flatMap_nil]
  | succ count ih =>
      rw [List.range_succ, List.flatMap_append, ih, List.flatMap_singleton, Nat.succ_mul, List.take_add]
      rfl

section

variable {lines : List (List α)} {size : Nat} (positive : 1 ≤ size)

include positive

theorem flatten_pageOf_length : (pageOf lines size lines.length).flatten = [] := by
  have beyond : lines.length ≤ lines.length * size := Nat.le_mul_of_pos_right lines.length positive
  rw [pageOf, List.drop_eq_nil_of_le beyond, List.take_nil, List.flatten_nil]

theorem length_le_of_flatten_pageOf (filled : ∀ line ∈ lines, line ≠ []) {number : Nat}
    (empty : (pageOf lines size number).flatten = []) : lines.length ≤ number * size := by
  rw [← List.drop_eq_nil_iff]
  cases rest : lines.drop (number * size) with
  | nil => rfl
  | cons line others =>
      obtain ⟨more, rfl⟩ : ∃ more, size = more + 1 := ⟨size - 1, by omega⟩
      have inLines : line ∈ lines := List.mem_of_mem_drop (rest ▸ List.mem_cons_self)
      rw [pageOf, rest, List.take_succ_cons, List.flatten_cons, List.append_eq_nil_iff] at empty
      exact absurd empty.1 (filled line inLines)

theorem flatMap_flatten_pageOf (filled : ∀ line ∈ lines, line ≠ []) {count : Nat}
    (empty : (pageOf lines size count).flatten = []) :
    (List.range count).flatMap (fun number => (pageOf lines size number).flatten) = lines.flatten := by
  have all := List.take_of_length_le (length_le_of_flatten_pageOf positive filled empty)
  rw [← flatMap_pageOf] at all
  rw [← congrArg List.flatten all, List.flatMap_def, List.flatMap_def, List.flatten_flatten, List.map_map]
  rfl

end

/-! What is told of a file. -/

def excerpt (asBytes : Bool) (count : Option Int) (start : Int) (bytes : ByteArray) : FileContent :=
  if asBytes then .bytes (joinBytes (lineRange (Text.byteLines bytes.toList) start count))
  else .text (String.ofList (lineRange (Text.feedLines (File.plainText bytes)) start count).flatten)

theorem joinBytes_byteLines (bytes : ByteArray) : joinBytes (Text.byteLines bytes.toList) = bytes := by
  rw [joinBytes, Text.byteLines, Text.flatten_linesWhere]
  rw [byteList_eq]

def fetch (service : Service) (project : Project) (path : String) : Except Fault ByteArray := do
  let file ← ((readablePath project path).run service).1
  match service.store.readBytes file.text with
  | .ok bytes => .ok bytes
  | .error (.missing _) => .error (.fileUnknown path)
  | .error fault => .error (.reading (.file fault))

theorem run_fileContent (service : Service) (project : Project) (path : String) (asBytes : Bool)
    (count : Option Int) (start : Int) :
    (fileContent project path asBytes count start).run service =
      ((service.fetch project path).map (excerpt asBytes count start), service) := by
  unfold fileContent fetch
  rw [Action.run_bind]
  have unchanged : ((readablePath project path).run service).2 = service := by rw [run_readablePath]
  rcases ran : (readablePath project path).run service with ⟨result, after⟩
  obtain rfl : after = service := by rw [← unchanged, ran]
  cases result with
  | error fault => rfl
  | ok file =>
      dsimp only
      rw [Action.run_bind, Action.run_get, Outcome.ok_bind]
      dsimp only
      cases read : after.store.readBytes file.text with
      | error fault => cases fault <;> rfl
      | ok bytes =>
          cases asBytes with
          | false =>
              refine congrArg (fun text => (Except.ok (FileContent.text (String.ofList text)), after)) ?_
              rw [textRange_eq_lineRange]
              exact whole_or_lineRange (Text.flatten_linesWhere _ (File.plainText bytes)) count start
          | true =>
              refine congrArg (fun content => (Except.ok (FileContent.bytes content), after)) ?_
              exact whole_or_lineRange (joinBytes_byteLines bytes) count start

/-! Contents laid end to end. -/

namespace FileContent

def letters : FileContent → List Char
  | text content => content.toList
  | bytes _ => []

def octets : FileContent → List UInt8
  | text _ => []
  | bytes content => content.toList

def isEmpty (content : FileContent) : Bool := content.letters.isEmpty && content.octets.isEmpty

def joined (asBytes : Bool) (parts : List FileContent) : FileContent :=
  if asBytes then .bytes (joinBytes (parts.map octets)) else .text (String.ofList (parts.flatMap letters))

end FileContent

theorem letters_text_ofList (text : List Char) : (FileContent.text (String.ofList text)).letters = text :=
  String.toList_ofList

theorem octets_bytes_joinBytes (lines : List (List UInt8)) :
    (FileContent.bytes (joinBytes lines)).octets = lines.flatten := by
  rw [FileContent.octets, byteList_eq]
  rfl

theorem isEmpty_text_iff {text : List Char} :
    (FileContent.text (String.ofList text)).isEmpty = true ↔ text = [] := by
  rw [FileContent.isEmpty, letters_text_ofList]
  simp [FileContent.octets]

theorem isEmpty_bytes_iff {lines : List (List UInt8)} :
    (FileContent.bytes (joinBytes lines)).isEmpty = true ↔ lines.flatten = [] := by
  rw [FileContent.isEmpty, octets_bytes_joinBytes]
  simp [FileContent.letters]

def page (asBytes : Bool) (size : Nat) (bytes : ByteArray) (number : Nat) : FileContent :=
  excerpt asBytes (some size) (number * size) bytes

section

variable (size : Nat) (bytes : ByteArray)

theorem page_as_text (number : Nat) :
    page false size bytes number =
      .text (String.ofList (pageOf (Text.feedLines (File.plainText bytes)) size number).flatten) := by
  rw [page, excerpt, if_neg Bool.false_ne_true, ← Nat.cast_mul, lineRange_natCast]
  rfl

theorem page_as_bytes (number : Nat) :
    page true size bytes number = .bytes (joinBytes (pageOf (Text.byteLines bytes.toList) size number)) := by
  rw [page, excerpt, if_pos rfl, ← Nat.cast_mul, lineRange_natCast]
  rfl

variable {size} (positive : 1 ≤ size) (asBytes : Bool)

include positive

theorem exists_empty_page : ∃ count, (page asBytes size bytes count).isEmpty = true := by
  cases asBytes with
  | false =>
      refine ⟨(Text.feedLines (File.plainText bytes)).length, ?_⟩
      rw [page_as_text, isEmpty_text_iff]
      exact flatten_pageOf_length positive
  | true =>
      refine ⟨(Text.byteLines bytes.toList).length, ?_⟩
      rw [page_as_bytes, isEmpty_bytes_iff]
      exact flatten_pageOf_length positive

theorem joined_pages {count : Nat} (empty : (page asBytes size bytes count).isEmpty = true) :
    FileContent.joined asBytes ((List.range count).map (page asBytes size bytes)) =
      excerpt asBytes none 0 bytes := by
  cases asBytes with
  | false =>
      rw [page_as_text, isEmpty_text_iff] at empty
      have filled : ∀ line ∈ Text.feedLines (File.plainText bytes), line ≠ [] :=
        fun _ => Text.ne_nil_of_mem_linesWhere _
      have whole := flatMap_flatten_pageOf positive filled empty
      rw [FileContent.joined, if_neg Bool.false_ne_true, excerpt, if_neg Bool.false_ne_true, lineRange_zero_none,
        List.flatMap_map]
      simp only [page_as_text, letters_text_ofList, whole]
  | true =>
      rw [page_as_bytes, isEmpty_bytes_iff] at empty
      have filled : ∀ line ∈ Text.byteLines bytes.toList, line ≠ [] :=
        fun _ => Text.ne_nil_of_mem_linesWhere _
      have whole := flatMap_flatten_pageOf positive filled empty
      rw [FileContent.joined, if_pos rfl, excerpt, if_pos rfl, lineRange_zero_none, joinBytes, ← List.flatMap_def,
        List.flatMap_map]
      simp only [page_as_bytes, octets_bytes_joinBytes, whole]
      rfl

end

/-- Pages of one size make up the whole file, in either mode, and what is told of some lines of a file is the
same whatever the name under which the file is read. -/
theorem pages_make_whole (service : Service) (project : Project) (path : String) :
    (∀ asBytes whole (size : Nat), 1 ≤ size →
      ((fileContent project path asBytes none 0).run service).1 = .ok whole →
      ∃ page : Nat → FileContent,
        (∀ number : Nat, (fileContent project path asBytes (some size) (number * size)).run service =
          (.ok (page number), service)) ∧
        (∃ count, (page count).isEmpty = true) ∧
        ∀ count, (page count).isEmpty = true →
          FileContent.joined asBytes ((List.range count).map page) = whole) ∧
      ∀ other bytes, ((fileContent project path true none 0).run service).1 = .ok (.bytes bytes) →
        ((fileContent project other true none 0).run service).1 = .ok (.bytes bytes) →
        ∀ asBytes count start, (fileContent project path asBytes count start).run service =
          (fileContent project other asBytes count start).run service := by
  constructor
  · intro asBytes whole size positive told
    rw [run_fileContent] at told
    obtain ⟨bytes, fetched, rfl⟩ := Outcome.map_eq_ok_iff.mp told
    refine ⟨page asBytes size bytes, fun number => ?_, exists_empty_page bytes positive asBytes,
      fun count => joined_pages bytes positive asBytes⟩
    rw [run_fileContent, fetched]
    rfl
  · intro other bytes told toldOther asBytes count start
    have fetched : ∀ {name : String}, ((fileContent project name true none 0).run service).1 = .ok (.bytes bytes) →
        service.fetch project name = .ok bytes := by
      intro name read
      rw [run_fileContent] at read
      obtain ⟨found, fetched, same⟩ := Outcome.map_eq_ok_iff.mp read
      rw [excerpt, if_pos rfl, lineRange_zero_none, joinBytes_byteLines] at same
      cases same
      exact fetched
    rw [run_fileContent, run_fileContent, fetched told, fetched toldOther]

/-! A test and its copy. -/

def copies (content : ByteArray) : Store :=
  { root := [("p", .directory [("copy.py", .file content (.finite 0)), ("test.py", .file content (.finite 0))])] }

def copiesProject : Project := { name := "p", root := .absolute ["p"] }

section

variable {content : ByteArray} {name : String} (copied : name = "copy.py" ∨ name = "test.py")

include copied

theorem find?_copies : (copies content).find? ["p", name] = some (.file content (.finite 0)) := by
  rcases copied with rfl | rfl <;> rfl

theorem settled_copies : (copies content).Settled ["p", name] := by
  have inRoot : (copies content).Settled ["p"] := by
    refine (Store.settled_nil _).concat (by decide) fun target linked => ?_
    cases linked
  refine inRoot.concat ?_ fun target linked => ?_
  · rcases copied with rfl | rfl <;> decide
  · cases linked.symm.trans (find?_copies copied)

theorem fetch_copies (light : (Binary64.finite (5 : Int)).lt (Project.megabytes content.size) = false) :
    ({ store := copies content } : Service).fetch copiesProject name = .ok content := by
  have named : Path.ofString name = ⟨.relative, [name]⟩ := by
    rcases copied with rfl | rfl <;> decide
  have noNull : Store.hasNull ["p", name] = false := by
    rcases copied with rfl | rfl <;> decide
  have proper : (Path.absolute ["p", name]).Proper := by
    rcases copied with rfl | rfl <;> decide
  have resolved : (copies content).resolve (.absolute ["p", name]) = .ok (.absolute ["p", name]) :=
    Store.resolve_of_settled rfl (settled_copies copied) noNull
  have resolvedRoot : (copies content).resolve (.ofString copiesProject.root.text) = .ok (.absolute ["p"]) := by
    cbv
  have accepted : copiesProject.filePath (copies content) name = .ok (.absolute ["p", name]) := by
    rw [Project.filePath_eq_ok_iff_acceptsPlace (by decide), named]
    exact ⟨resolved, rfl, .inl (List.prefix_append ["p"] [name])⟩
  have found : (copies content).fileAt? (.absolute ["p", name]) = some (content, .finite 0) :=
    Store.fileAt?_eq_some_iff.mpr ⟨_, Store.locate_of_settled (settled_copies copied) noNull (find?_copies copied)⟩
  have small : Project.checkSize (copies content) ({} : Settings).maxFileSizeMb (.absolute ["p", name]) = .ok () := by
    rw [Project.checkSize_eq_ok_iff, found]
    rintro _ _ ⟨⟩
    exact ⟨_, rfl, congrArg Except.ok light⟩
  have inside : (Path.absolute ["p"]).text.toList.isPrefixOf (Path.absolute ["p", name]).text.toList = true := by
    rcases copied with rfl | rfl <;> decide
  have granted : Project.checkAccess (copies content) {} (Path.absolute ["p", name]).text
      copiesProject.root.text = .ok () := by
    have resolvedText : (copies content).resolve (.ofString (Path.absolute ["p", name]).text) =
        .ok (.absolute ["p", name]) := by
      rw [Path.ofString_text proper, resolved]
    rw [Project.checkAccess_of_resolved resolvedText resolvedRoot, if_pos inside]
    rcases copied with rfl | rfl
    · exact small
    · exact small
  have readable : ((readablePath copiesProject name).run { store := copies content }).1 =
      .ok (.absolute ["p", name]) := readablePath_eq_ok_iff.mpr ⟨accepted, granted⟩
  have read : (copies content).readBytes (Path.absolute ["p", name]).text = .ok content :=
    Outcome.mapError_eq_ok_iff.mp ((File.readBytes_text_eq_ok_iff proper).mpr ⟨_, found⟩)
  rw [fetch, readable, Outcome.ok_bind, read]

end

def threeLines : ByteArray := ⟨#[97, 13, 10, 98, 10, 99]⟩

theorem feedLines_threeLines :
    Text.feedLines (File.plainText threeLines) = [['a', '\n'], ['b', '\n'], ['c']] := by
  rw [File.plainText, byteList_eq]
  decide +kernel

/-- Read two lines at a time, a test gives all of its text, and its first two lines are those of its copy. -/
theorem test_read_by_pages :
    let ask := fun name asBytes count start =>
      ((fileContent copiesProject name asBytes count start).run { store := copies threeLines }).1
    namesTest "test.py" = true ∧ namesTest "copy.py" = false ∧
      ask "test.py" false none 0 = .ok (.text "a\nb\nc") ∧
      (∃ page : Nat → FileContent, (∀ number : Nat, ask "test.py" false (some 2) (number * 2) = .ok (page number)) ∧
        FileContent.joined false [page 0, page 1] = .text "a\nb\nc") ∧
      ask "test.py" false (some 2) 0 = ask "copy.py" false (some 2) 0 := by
  intro ask
  have light : (Binary64.finite (5 : Int)).lt (Project.megabytes threeLines.size) = false := by decide +kernel
  have asks : ∀ {name}, name = "copy.py" ∨ name = "test.py" → ∀ asBytes count start,
      ask name asBytes count start = .ok (excerpt asBytes count start threeLines) := by
    intro name copied asBytes count start
    dsimp only [ask]
    rw [run_fileContent, fetch_copies copied light]
    rfl
  have wholeText : excerpt false none 0 threeLines = .text "a\nb\nc" := by
    rw [excerpt, if_neg Bool.false_ne_true, feedLines_threeLines]
    rfl
  have wholeBytes : excerpt true none 0 threeLines = .bytes threeLines := by
    rw [excerpt, if_pos rfl, lineRange_zero_none, joinBytes_byteLines]
  have told : ask "test.py" false none 0 = .ok (.text "a\nb\nc") := (asks (.inr rfl) _ _ _).trans (congrArg _ wholeText)
  obtain ⟨paged, named⟩ := pages_make_whole { store := copies threeLines } copiesProject "test.py"
  obtain ⟨page, turned, -, joins⟩ := paged false _ 2 (by decide) told
  have pages : ∀ number : Nat, ask "test.py" false (some 2) (number * 2) = .ok (page number) :=
    fun number => congrArg Prod.fst (turned number)
  have final : (page 2).isEmpty = true := by
    have third := (asks (.inr rfl) false (some 2) ((2 : Nat) * 2)).symm.trans (pages 2)
    rw [← Except.ok.inj third, excerpt, if_neg Bool.false_ne_true, feedLines_threeLines, isEmpty_text_iff]
    decide
  refine ⟨by decide, by decide, told, ⟨page, pages, joins 2 final⟩, ?_⟩
  have same := named "copy.py" threeLines ((asks (.inr rfl) _ _ _).trans (congrArg _ wholeBytes))
    ((asks (.inl rfl) _ _ _).trans (congrArg _ wholeBytes)) false (some 2) 0
  exact congrArg Prod.fst same

end Arborist.Service
