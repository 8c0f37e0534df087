import Arborist.Proofs.Outcome
import Arborist.Search.Text

/-!
Where the matches of a text search come from.  Limits only leave matches out, so every match is a line
of a file that fits the pattern for files and that may be read.
-/

namespace Arborist.Search

theorem mem_of_mem_itemRange {items : List α} {start stop : Int} {item : α}
    (member : item ∈ itemRange items start stop) : item ∈ items :=
  List.mem_of_mem_take (List.mem_of_mem_drop member)

theorem mem_of_mem_takeUntilReached {limit : Value} {items : List α} {item : α}
    (member : item ∈ takeUntilReached limit items) : item ∈ items := by
  unfold takeUntilReached at member
  split at member
  · exact List.mem_of_mem_take member
  · exact member
  · exact List.mem_of_mem_take member

theorem mem_of_cutTo {limit : Value} {items kept : List α} (cut : cutTo limit items = .ok kept) {item : α}
    (member : item ∈ kept) : item ∈ items := by
  unfold cutTo at cut
  split at cut
  · cases cut
    exact member
  · cases cut
    exact mem_of_mem_itemRange member
  · cases cut
    exact mem_of_mem_itemRange member
  · cases cut

structure TextMatch.Shows (found : TextMatch) (file : String) (lines : List (List Char)) : Prop where
  file_eq : found.file = file
  positive : 1 ≤ found.line
  text_eq : ∃ line, lines[found.line - 1]? = some line ∧ found.text = shownLine line

theorem shows_of_mem_matchesIn {file : String} {test : LineTest} {reach : Int} {lines : List (List Char)}
    {found : TextMatch} (member : found ∈ matchesIn file test reach lines) : found.Shows file lines := by
  simp only [matchesIn, List.mem_filterMap] at member
  obtain ⟨⟨index, line⟩, among, kept⟩ := member
  obtain ⟨place, paired⟩ := List.mem_iff_getElem?.mp among
  obtain ⟨numbered, stands⟩ := List.getElem?_zip_eq_some.mp paired
  obtain ⟨inRange, rfl⟩ := List.getElem?_eq_some_iff.mp numbered
  split at kept
  · cases kept
    exact ⟨rfl, Nat.le_add_left 1 _, line, by simpa using stands, rfl⟩
  · cases kept

theorem exists_bytes_of_mem_fileMatches {store : Store} {settings : Settings} {root path : Path}
    {test : LineTest} {query : TextQuery} {found : TextMatch}
    (member : found ∈ fileMatches store settings root test query path) :
    Project.checkAccess store settings path.text root.text = .ok () ∧
      ∃ bytes, File.readBytes store path.text = .ok bytes ∧
        found.Shows ((path.relativeTo? root).getD path).text (Text.feedLines (File.plainText bytes)) := by
  unfold fileMatches at member
  dsimp only at member
  split at member
  next inFile read =>
    obtain ⟨_, granted, afterGranted⟩ := Outcome.bind_eq_ok_iff.mp read
    obtain ⟨bytes, opened, same⟩ := Outcome.bind_eq_ok_iff.mp afterGranted
    cases same
    exact ⟨granted, bytes, opened, shows_of_mem_matchesIn (mem_of_mem_takeUntilReached member)⟩
  next => cases member

theorem exists_path_of_mem_matchesOver {find : Path → List TextMatch} {limit : Value}
    {before found : List TextMatch} {paths : List Path}
    (done : matchesOver find limit before paths = .ok found) {one : TextMatch} (member : one ∈ found) :
    one ∈ before ∨ ∃ path ∈ paths, one ∈ find path := by
  induction paths generalizing before with
  | nil =>
      cases done
      exact .inl member
  | cons path rest ih =>
      -- whatever the limit says, all that has been found is found in the first path or later
      have fromFirst : one ∈ before ++ find path → one ∈ before ∨ ∃ other ∈ path :: rest, one ∈ find other := by
        intro joined
        rcases List.mem_append.mp joined with inBefore | inFirst
        · exact .inl inBefore
        · exact .inr ⟨path, by simp, inFirst⟩
      obtain ⟨stops, -, after⟩ := Outcome.bind_eq_ok_iff.mp done
      cases stops with
      | true =>
          cases after
          exact fromFirst member
      | false =>
          rcases ih after with joined | ⟨other, among, inOther⟩
          · exact fromFirst joined
          · exact .inr ⟨other, List.mem_cons_of_mem path among, inOther⟩

theorem exists_path_of_mem_searchText {store : Store} {settings : Settings} {project : Project}
    {query : TextQuery} {found : List TextMatch}
    (searched : searchText store settings project query = .ok found) {one : TextMatch}
    (member : one ∈ found) :
    ∃ test pattern paths path, query.test = .ok test ∧ File.glob store project.root pattern = .ok paths ∧
      path ∈ paths ∧ one ∈ fileMatches store settings project.root test query path := by
  unfold searchText at searched
  obtain ⟨test, tested, afterTest⟩ := Outcome.bind_eq_ok_iff.mp searched
  obtain ⟨paths, globbed, afterGlob⟩ := Outcome.bind_eq_ok_iff.mp afterTest
  obtain ⟨all, collected, cut⟩ := Outcome.bind_eq_ok_iff.mp afterGlob
  rcases exists_path_of_mem_matchesOver collected (mem_of_cutTo cut member) with none | ⟨path, among, inPath⟩
  · cases none
  · exact ⟨test, _, paths, path, tested, Outcome.mapError_eq_ok_iff.mp globbed,
      (List.mem_filter.mp among).1, inPath⟩

end Arborist.Search
