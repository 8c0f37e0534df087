import Mathlib
import Arborist.Proofs.File.Globbing
import Arborist.Proofs.File.Reading
import Arborist.Proofs.Project.Policy
import Arborist.Proofs.Search.Plain
import Arborist.Proofs.Search.Truncation
import Arborist.Proofs.Service.ActionRun
import Arborist.Proofs.Service.Listing
import Arborist.Proofs.Text.OneLine
import Arborist.Server.Tool

/-!
Looking for code that is in a file as it stands.  The search goes line by line and in lower case.  So code
on one line is found, but for what becomes of a capital sigma, which depends on the letters around it; code
on several lines never is.
-/

namespace Arborist

namespace Search

variable {store : Store} {settings : Settings} {root : Path} {test : LineTest} {reach : Nat}

def lineTotal (store : Store) (root : Path) : Nat :=
  ((File.pathsBelow store root).map fun path => (linesOf store path).length).sum

theorem length_matchesOf_le (path : Path) :
    (matchesOf store root test reach path).length ≤ (linesOf store path).length := by
  unfold matchesOf matchingNumbers
  rw [List.length_map]
  calc _ ≤ (List.range' 1 (linesOf store path).length).length := List.length_filter_le _ _
    _ = (linesOf store path).length := List.length_range'

theorem length_allMatches_le (holds : Path → Bool) :
    (allMatches store settings root test reach ((File.pathsBelow store root).filter holds)).length ≤
      lineTotal store root := by
  have fewer : (((File.pathsBelow store root).filter holds).filter (isSearchable store settings root)).Sublist
      (File.pathsBelow store root) :=
    List.filter_sublist.trans List.filter_sublist
  unfold allMatches lineTotal
  rw [List.length_flatMap]
  calc _ ≤ ((((File.pathsBelow store root).filter holds).filter (isSearchable store settings root)).map
          fun path => (linesOf store path).length).sum :=
        List.sum_le_sum fun path _ => length_matchesOf_le path
    _ ≤ _ := (fewer.map _).sum_le_sum (by simp)

theorem searchText_of_paths {project : Project} {query : TextQuery} (tested : query.test = .ok test)
    {paths : List Path} (globbed : File.glob store project.root query.fileGlob = .ok paths) (most : Nat) :
    searchText store settings project { query with limit := .int most, contextLines := reach } =
      .ok ((allMatches store settings project.root test reach paths).take most) := by
  have asked : searchText store settings project { query with limit := .int most, contextLines := reach } =
      (query.test >>= fun test =>
        (File.glob store project.root query.fileGlob).mapError .pattern >>= fun paths =>
          matchesOver (fileMatches store settings project.root test
            { query with limit := .int most, contextLines := reach }) (.int most) []
              (paths.filter store.isFile) >>= cutTo (.int most)) := by
    rw [← query.fileGlob_eq]
    rfl
  rw [asked, tested, globbed, Outcome.ok_bind, Outcome.ok_mapError, Outcome.ok_bind,
    matchesOver_cutTo (fileMatches_eq store settings project.root test query most reach), List.nil_append,
    flatMap_ite, List.filter_filter]
  unfold allMatches isSearchable
  simp only [Bool.and_comm]

theorem exists_match_in_iff {paths : List Path} {name : String} :
    (∃ found ∈ allMatches store settings root test reach paths, found.file = name) ↔
      ∃ path ∈ paths, isSearchable store settings root path = true ∧
        ((path.relativeTo? root).getD path).text = name ∧ ∃ line ∈ linesOf store path, test line = true := by
  simp only [allMatches, List.mem_flatMap, List.mem_filter, matchesOf, List.mem_map, mem_matchingNumbers]
  constructor
  · rintro ⟨_, ⟨path, ⟨member, searched⟩, number, ⟨positive, inside, holds⟩, rfl⟩, rfl⟩
    obtain ⟨index, rfl⟩ : ∃ index, number = index + 1 := ⟨number - 1, by omega⟩
    rw [lineAt_succ inside] at holds
    exact ⟨path, member, searched, rfl, _, List.getElem_mem inside, holds⟩
  · rintro ⟨path, member, searched, rfl, line, among, holds⟩
    obtain ⟨index, below, rfl⟩ := List.mem_iff_getElem.mp among
    refine ⟨_, ⟨path, ⟨member, searched⟩, index + 1, ⟨by omega, by omega, ?_⟩, rfl⟩, rfl⟩
    rwa [lineAt_succ below]

end Search

/-- A file that may be read, given by the names that lead to it from the root of a project. -/
structure Project.Readable (store : Store) (settings : Settings) (project : Project) (names : List String)
    (content : ByteArray) : Prop where
  proper : ∀ name ∈ names, Path.ProperName name
  stands : ∃ modified, store.fileAt? (project.root.join ⟨.relative, names⟩) = some (content, modified)
  granted : Project.checkAccess store settings (project.root.join ⟨.relative, names⟩).text project.root.text =
    .ok ()

namespace Project.Readable

variable {store : Store} {settings : Settings} {project : Project} {names : List String} {content : ByteArray}

theorem linesOf_eq (readable : Readable store settings project names content)
    (rootProper : project.root.Proper) :
    Search.linesOf store (project.root.join ⟨.relative, names⟩) = Text.feedLines (File.plainText content) := by
  have pathProper : (project.root.join ⟨.relative, names⟩).Proper := rootProper.join readable.proper
  have opened := (File.readBytes_text_eq_ok_iff pathProper).mpr readable.stands
  simp only [Search.linesOf, opened]

theorem isSearchable_eq (readable : Readable store settings project names content) :
    Search.isSearchable store settings project.root (project.root.join ⟨.relative, names⟩) = true := by
  obtain ⟨modified, stands⟩ := readable.stands
  obtain ⟨place, located⟩ := Store.fileAt?_eq_some_iff.mp stands
  have there : store.isFile (project.root.join ⟨.relative, names⟩) = true := by
    simp [Store.isFile, Store.entry?, located, Entry.isFile]
  simp [Search.isSearchable, there, readable.granted, Except.isOk, Except.toBool]

end Project.Readable

namespace Server.Tool

theorem snippetExtension_of_mem {language extension : String}
    (listed : (language, extension) ∈ snippetExtensions) :
    language ≠ "" ∧ snippetExtension language = extension ∧ File.PlainEnding extension := by
  have all : ∀ pair ∈ snippetExtensions,
      pair.1 ≠ "" ∧ snippetExtension pair.1 = pair.2 ∧ File.PlainEnding pair.2 := by decide
  exact all _ listed

def holdsSnippet (snippet : String) : Search.LineTest := fun line =>
  Search.holdsPlainly (Text.lower (Text.strip snippet.toList)) (Text.lower line)

theorem holdsSnippet_iff {snippet : String} {line : List Char} :
    holdsSnippet snippet line = true ↔ Text.lower (Text.strip snippet.toList) <:+: Text.lower line := by
  unfold holdsSnippet
  rw [Search.holdsPlainly_iff, Text.strip_lower, Text.strip_strip]
  exact (Text.trimmed_strip snippet.toList).lower.infix_strip_iff

theorem unbroken_of_holdsSnippet {snippet : String} {content : ByteArray} {line : List Char}
    (member : line ∈ Text.feedLines (File.plainText content)) (holds : holdsSnippet snippet line = true) :
    Text.Unbroken (Text.strip snippet.toList) := by
  have inStripped := (Text.trimmed_strip snippet.toList).lower.infix_strip_iff.mpr (holdsSnippet_iff.mp holds)
  rw [Text.strip_lower] at inStripped
  exact (Text.unbroken_strip_line member).of_lower_inside inStripped

theorem run_findSimilar {service : Service} {name language extension : String} {project : Project}
    (registered : ProjectList.find service.projects name = .ok project)
    (listed : (language, extension) ∈ snippetExtensions) (snippet : String) (most : Nat) :
    ((Tool.run (.findSimilar name snippet (some language) (.int most))).run service).1 =
      .ok (.list (((Search.allMatches service.store service.settings project.root (holdsSnippet snippet) 0
        ((File.pathsBelow service.store project.root).filter
          fun path => File.nameFits ("*." ++ extension) path.name)).take most).map
            Search.TextMatch.toValue)) := by
  obtain ⟨nonempty, ending, plain⟩ := snippetExtension_of_mem listed
  let query : Search.TextQuery :=
    { pattern := Text.stripString snippet, filePattern := some ("**/*." ++ extension) }
  have asked : similarQuery snippet (some language) (.int most) =
      { query with limit := .int most, contextLines := (0 : Nat) } := by
    simp [similarQuery, ending, query]
  have tested : query.test = .ok (holdsSnippet snippet) := by
    have letters : (Text.stripString snippet).toList = Text.strip snippet.toList := by simp [Text.stripString]
    unfold holdsSnippet
    rw [← letters]
    rfl
  have globbed : query.fileGlob = "**/*." ++ extension := by
    simp [query, Search.TextQuery.fileGlob]
  have listedPaths := File.glob_ending plain service.store project.root
  rw [← globbed] at listedPaths
  have searched := @Search.searchText_of_paths service.store service.settings _ 0 project query tested _
    listedPaths most
  simp only [run, searchProject, Service.findProject, asked, Action.run_bind, Action.run_get, Action.run_lift,
    registered, searched]
  rfl

/-- Code that is in a file is found there exactly if the file is below the root without going through links,
the code is on one line, and it has no capital sigma or still occurs in lower case. -/
theorem similar_found_iff (service : Service) {name language extension : String} {project : Project}
    (registered : ProjectList.find service.projects name = .ok project)
    (listed : (language, extension) ∈ snippetExtensions) (rootProper : project.root.Proper)
    (named : service.store.WellNamed) {names : List String} {content : ByteArray}
    (readable : project.Readable service.store service.settings names content)
    (ends : ∃ stem, (project.root.join ⟨.relative, names⟩).name.toList = stem ++ '.' :: extension.toList)
    {snippet : String} (notBlank : Text.strip snippet.toList ≠ [])
    (occurs : snippet.toList <:+: Text.Utf8.decode content.toList ∨
      snippet.toList <:+: File.plainText content)
    {most : Nat} (enough : Search.lineTotal service.store project.root ≤ most) :
    ∃ found : List Search.TextMatch,
      ((Tool.run (.findSimilar name snippet (some language) (.int most))).run service).1 =
          .ok (.list (found.map Search.TextMatch.toValue)) ∧
        ((∃ one ∈ found, one.file = Path.text ⟨.relative, names⟩) ↔
          project.root.join ⟨.relative, names⟩ ∈ File.pathsBelow service.store project.root ∧
            Text.Unbroken (Text.strip snippet.toList) ∧
              ('Σ' ∉ Text.strip snippet.toList ∨ ∃ line ∈ Text.feedLines (File.plainText content),
                Text.lower (Text.strip snippet.toList) <:+: Text.lower line)) := by
  have plain := (snippetExtension_of_mem listed).2.2
  refine ⟨_, run_findSimilar registered listed snippet most, ?_⟩
  rw [List.take_of_length_le ((Search.length_allMatches_le _).trans enough), Search.exists_match_in_iff]
  constructor
  · rintro ⟨path, among, -, told, line, member, holds⟩
    have below := List.mem_of_mem_filter among
    obtain rfl : path = project.root.join ⟨.relative, names⟩ :=
      File.stepsTo_of_relative_text named below readable.proper told
    rw [readable.linesOf_eq rootProper] at member
    exact ⟨below, unbroken_of_holdsSnippet member holds, .inr ⟨line, member, holdsSnippet_iff.mp holds⟩⟩
  · rintro ⟨below, unbroken, lowered⟩
    have inText : Text.strip snippet.toList <:+: File.plainText content := by
      have inSnippet := Text.strip_infix_self snippet.toList
      rcases occurs with asWritten | asRead
      · exact unbroken.infix_unifyNewlines (inSnippet.trans asWritten)
      · exact inSnippet.trans asRead
    obtain ⟨line, member, holds⟩ : ∃ line ∈ Text.feedLines (File.plainText content),
        Text.lower (Text.strip snippet.toList) <:+: Text.lower line := by
      rcases lowered with noSigma | present
      · obtain ⟨line, member, inLine⟩ := Text.exists_line_of_infix notBlank unbroken.1 inText
        exact ⟨line, member, Text.lower_infix_lower noSigma inLine⟩
      · exact present
    have steps : File.StepsTo project.root (project.root.join ⟨.relative, names⟩) names := rfl
    refine ⟨_, List.mem_filter.mpr ⟨below, (File.nameFits_ending_iff plain).mpr ends⟩,
      readable.isSearchable_eq, ?_, line, ?_, holdsSnippet_iff.mpr holds⟩
    · rw [Service.relativeTo?_of_stepsTo steps, Option.getD_some]
    · rwa [readable.linesOf_eq rootProper]

def twoLines : ByteArray := ⟨#[120, 10, 121, 10]⟩

def twoLinesProject : Project := { name := "p", root := .absolute ["p"] }

def twoLinesHeld : Service where
  store := { root := [("p", .directory [("a.py", .file twoLines (.finite 0))])] }
  projects := [("p", twoLinesProject)]

theorem plainText_twoLines : File.plainText twoLines = ['x', '\n', 'y', '\n'] := by
  cbv

theorem pathsBelow_twoLinesHeld :
    File.pathsBelow twoLinesHeld.store twoLinesProject.root = [.absolute ["p", "a.py"]] := by
  cbv

theorem readable_twoLines :
    twoLinesProject.Readable twoLinesHeld.store twoLinesHeld.settings ["a.py"] twoLines := by
  have stands : twoLinesHeld.store.fileAt? (.absolute ["p", "a.py"]) = some (twoLines, .finite 0) := by
    cbv
  refine ⟨by decide, ⟨.finite 0, stands⟩, ?_⟩
  have resolved : twoLinesHeld.store.resolve (.ofString (Path.absolute ["p", "a.py"]).text) =
      .ok (.absolute ["p", "a.py"]) := by
    rw [Path.ofString_text (by decide)]
    cbv
  have resolvedRoot : twoLinesHeld.store.resolve (.ofString twoLinesProject.root.text) =
      .ok (.absolute ["p"]) := by
    cbv
  have size : Project.checkSize twoLinesHeld.store twoLinesHeld.settings.maxFileSizeMb
      (.absolute ["p", "a.py"]) = .ok () := by
    rw [Project.checkSize_eq_ok_iff, stands]
    rintro _ _ ⟨⟩
    have fits : (Binary64.finite (5 : Int)).lt (Project.megabytes (ByteArray.size twoLines)) = false := by
      decide +kernel
    exact ⟨_, rfl, congrArg Except.ok fits⟩
  have joined : twoLinesProject.root.join ⟨.relative, ["a.py"]⟩ = .absolute ["p", "a.py"] := by decide
  rw [joined, Project.checkAccess_of_resolved resolved resolvedRoot, if_pos (by decide)]
  exact size

theorem lineTotal_twoLinesHeld : Search.lineTotal twoLinesHeld.store twoLinesProject.root = 2 := by
  have lines : Search.linesOf twoLinesHeld.store (.absolute ["p", "a.py"]) =
      Text.feedLines ['x', '\n', 'y', '\n'] := by
    rw [← plainText_twoLines]
    exact readable_twoLines.linesOf_eq (by decide)
  rw [Search.lineTotal, pathsBelow_twoLinesHeld]
  simp only [List.map_cons, List.map_nil, lines]
  decide

/-- The second line of a file is found by itself, and both lines together are not. -/
theorem both_lines_not_found :
    "x\ny".toList <:+: File.plainText twoLines ∧
      (∃ found : List Search.TextMatch,
        ((Tool.run (.findSimilar "p" "x\ny" (some "python") (.int 2))).run twoLinesHeld).1 =
            .ok (.list (found.map Search.TextMatch.toValue)) ∧
          ¬ ∃ one ∈ found, one.file = "a.py") ∧
      ∃ found : List Search.TextMatch,
        ((Tool.run (.findSimilar "p" "y" (some "python") (.int 2))).run twoLinesHeld).1 =
            .ok (.list (found.map Search.TextMatch.toValue)) ∧
          ∃ one ∈ found, one.file = "a.py" := by
  have registered : ProjectList.find twoLinesHeld.projects "p" = .ok twoLinesProject := rfl
  have listed : ("python", "py") ∈ snippetExtensions := by decide
  have ends : ∃ stem, (twoLinesProject.root.join ⟨.relative, ["a.py"]⟩).name.toList =
      stem ++ '.' :: "py".toList := ⟨['a'], by decide⟩
  have both : "x\ny".toList <:+: File.plainText twoLines := by
    rw [plainText_twoLines]
    exact ⟨[], ['\n'], by decide⟩
  have second : "y".toList <:+: File.plainText twoLines := by
    rw [plainText_twoLines]
    exact ⟨['x', '\n'], ['\n'], by decide⟩
  obtain ⟨found, answered, atBoth⟩ := similar_found_iff twoLinesHeld registered listed (by decide) (by decide)
    readable_twoLines ends (by decide) (.inr both) lineTotal_twoLinesHeld.le
  obtain ⟨others, alone, atSecond⟩ := similar_found_iff twoLinesHeld registered listed (by decide) (by decide)
    readable_twoLines ends (by decide) (.inr second) lineTotal_twoLinesHeld.le
  refine ⟨both, ⟨found, answered, ?_⟩, others, alone, ?_⟩
  · intro present
    exact absurd (atBoth.mp present).2.1 (by decide)
  · refine atSecond.mpr ⟨?_, by decide, .inl (by decide)⟩
    rw [pathsBelow_twoLinesHeld]
    exact List.mem_singleton_self _

end Server.Tool

end Arborist
