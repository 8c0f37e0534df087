import Mathlib
import Arborist.Proofs.Search.QueryLimits
import Arborist.Proofs.Service.Listing

/-!
Which files a query over a language reaches.  The language of one file is told by the end of its name in
lower case, while the files of a language are found by their names as they are written.  So a file is
reached exactly if its name ends in one of the extensions as it stands.
-/

namespace Arborist

namespace Path

theorem exists_front_of_intercalate {names : List String} {last : String} (ends : names.getLast? = some last) :
    ∃ front, ("/".intercalate names).toList = front ++ last.toList := by
  induction names with
  | nil => cases ends
  | cons first rest ih =>
      cases rest with
      | nil =>
          cases ends
          exact ⟨[], by simp⟩
      | cons second others =>
          obtain ⟨front, parts⟩ := ih (by simpa using ends)
          refine ⟨first.toList ++ '/' :: front, ?_⟩
          rw [intercalate_cons_cons_toList, parts]
          simp

theorem exists_front_of_text {names : List String} {last : String} (ends : names.getLast? = some last) :
    ∃ front, (Path.text ⟨.relative, names⟩).toList = front ++ last.toList := by
  have nonempty : names ≠ [] := by
    rintro rfl
    cases ends
  obtain ⟨front, parts⟩ := exists_front_of_intercalate ends
  refine ⟨front, ?_⟩
  simpa [text, nonempty, Anchor.text] using parts

end Path

theorem nameEnding_of_last_dot {text : String} {front ending : List Char}
    (parts : text.toList = front ++ '.' :: ending) (noDot : '.' ∉ ending) :
    nameEnding text = String.ofList (Text.lower ending) := by
  have dotted : text.toList.contains '.' = true := by simp [parts]
  have behind : (text.toList.reverse.takeWhile (· != '.')).reverse = ending := by
    have passes : ∀ c ∈ ending.reverse, (c != '.') = true := by
      intro c member
      have inside := List.mem_reverse.mp member
      simp only [bne_iff_ne, ne_eq]
      rintro rfl
      exact noDot inside
    rw [parts, List.reverse_append, List.reverse_cons, List.append_assoc, List.takeWhile_append_of_pos passes]
    simp
  simp only [nameEnding, dotted, if_true, behind]

namespace LanguageRegistry

variable {registry : LanguageRegistry}

theorem mem_extensionsOf_iff {extension language : String} :
    extension ∈ registry.extensionsOf language ↔ (extension, language) ∈ registry.extensions := by
  simp [extensionsOf]

theorem mem_of_languageOf? {name language : String} (told : registry.languageOf? name = some language) :
    (nameEnding name, language) ∈ registry.extensions := by
  obtain ⟨before, after, parts, -⟩ := List.lookup_eq_some_iff.mp told
  simp [parts]

/-- A name ends in an extension of a language as it is written. -/
def Spelled (registry : LanguageRegistry) (language name : String) : Prop :=
  ∃ extension ∈ registry.extensionsOf language, ∃ stem, name.toList = stem ++ '.' :: extension.toList

/-- Extensions as the standard ones are: without dots and in lower case. -/
def LowerCase (registry : LanguageRegistry) : Prop :=
  ∀ pair ∈ registry.extensions, '.' ∉ pair.1.toList ∧ Text.lower pair.1.toList = pair.1.toList

instance (registry : LanguageRegistry) : Decidable registry.LowerCase :=
  inferInstanceAs (Decidable (∀ pair ∈ registry.extensions, _))

def LowerEnding (name : String) : Prop :=
  ∃ stem ending, name.toList = stem ++ '.' :: ending ∧ '.' ∉ ending ∧ Text.lower ending = ending

theorem LowerCase.spelled_iff (lowerCase : registry.LowerCase) {names : List String} {language last : String}
    (ends : names.getLast? = some last)
    (told : registry.languageOf? (Path.text ⟨.relative, names⟩) = some language) :
    registry.Spelled language last ↔ LowerEnding last := by
  constructor
  · rintro ⟨extension, listed, stem, parts⟩
    obtain ⟨noDot, lower⟩ := lowerCase _ (mem_extensionsOf_iff.mp listed)
    exact ⟨stem, extension.toList, parts, noDot, lower⟩
  · rintro ⟨stem, ending, parts, noDot, lower⟩
    obtain ⟨front, behind⟩ := Path.exists_front_of_text ends
    rw [parts, ← List.append_assoc] at behind
    have found := mem_of_languageOf? told
    rw [nameEnding_of_last_dot behind noDot, lower] at found
    exact ⟨String.ofList ending, mem_extensionsOf_iff.mpr found, stem, by simpa using parts⟩

end LanguageRegistry

namespace Search

/-! The files of a language. -/

theorem filesWithExtension_eq {extension : String} (plain : File.PlainEnding extension) (store : Store)
    (project : Project) :
    filesWithExtension store project extension =
      .ok ((((File.pathsBelow store project.root).filter
        fun path => File.nameFits ("*." ++ extension) path.name).filter store.isFile).filterMap
          fun path => (path.relativeTo? project.root).map Path.text) := by
  unfold filesWithExtension
  rw [File.glob_ending plain]
  rfl

theorem mem_filesWithExtension_iff {store : Store} {project : Project} {extension : String}
    (plain : File.PlainEnding extension) (named : store.WellNamed) (nullFree : store.NullFree)
    {files : List String} (listed : filesWithExtension store project extension = .ok files)
    {names : List String} {last : String} (ends : names.getLast? = some last) {content : ByteArray}
    {modified : Binary64} (leads : store.LeadsTo project.root names (.file content modified)) :
    Path.text ⟨.relative, names⟩ ∈ files ↔ ∃ stem, last.toList = stem ++ '.' :: extension.toList := by
  have steps : File.StepsTo project.root ⟨project.root.anchor, project.root.components ++ names⟩ names := rfl
  have lastName : Path.name ⟨project.root.anchor, project.root.components ++ names⟩ = last := by
    simp [Path.name, List.getLast?_append, ends]
  rw [filesWithExtension_eq plain] at listed
  cases listed
  simp only [List.mem_filterMap, List.mem_filter, ← File.nameFits_ending_iff plain]
  constructor
  · rintro ⟨path, ⟨⟨below, fits⟩, -⟩, told⟩
    obtain ⟨relative, leadsTo, same⟩ := Option.map_eq_some_iff.mp told
    have proper := fun name member => (leads.proper named name member).1
    have stepped := File.stepsTo_of_relative_text named below proper (by rwa [leadsTo, Option.getD_some])
    rw [stepped, lastName] at fits
    exact fits
  · intro fits
    obtain ⟨place, located⟩ := leads.locate named nullFree rfl
    have nonempty : names ≠ [] := by
      rintro rfl
      cases ends
    have isFile : store.isFile ⟨project.root.anchor, project.root.components ++ names⟩ = true := by
      simp [Store.isFile, Store.entry?, located, Entry.isFile]
    refine ⟨_, ⟨⟨File.mem_pathsBelow named nullFree leads nonempty, ?_⟩, isFile⟩, ?_⟩
    · rwa [lastName]
    · rw [Service.relativeTo?_of_stepsTo steps]
      rfl

theorem mem_languageFiles_iff {service : Service} {project : Project} {language : String}
    (plain : ∀ extension ∈ service.registry.extensionsOf language, File.PlainEnding extension)
    (known : service.registry.extensionsOf language ≠ []) (named : service.store.WellNamed)
    (nullFree : service.store.NullFree) :
    ∃ files, languageFiles service project language = .ok files ∧
      ∀ {names last content modified}, names.getLast? = some last →
        service.store.LeadsTo project.root names (.file content modified) →
          (Path.text ⟨.relative, names⟩ ∈ files ↔ service.registry.Spelled language last) := by
  have each : ∀ extensions : List String, (∀ extension ∈ extensions, File.PlainEnding extension) →
      ∃ files, extensions.mapM (filesWithExtension service.store project) = .ok files ∧
        ∀ {names last content modified}, names.getLast? = some last →
          service.store.LeadsTo project.root names (.file content modified) →
            (Path.text ⟨.relative, names⟩ ∈ files.flatten ↔
              ∃ extension ∈ extensions, ∃ stem, last.toList = stem ++ '.' :: extension.toList) := by
    intro extensions
    induction extensions with
    | nil => exact fun _ => ⟨[], rfl, by simp⟩
    | cons extension rest ih =>
        intro allPlain
        obtain ⟨later, done, holds⟩ := ih fun other member => allPlain other (List.mem_cons_of_mem _ member)
        have plainFirst := allPlain extension List.mem_cons_self
        obtain ⟨first, listed⟩ : ∃ first, filesWithExtension service.store project extension = .ok first :=
          ⟨_, filesWithExtension_eq plainFirst service.store project⟩
        refine ⟨first :: later, by simp [listed, done], ?_⟩
        intro names last content modified ends leads
        rw [List.flatten_cons, List.mem_append, holds ends leads,
          mem_filesWithExtension_iff plainFirst named nullFree listed ends leads]
        simp
  obtain ⟨files, done, holds⟩ := each _ plain
  refine ⟨files.flatten, ?_, fun ends leads => holds ends leads⟩
  simp [languageFiles, known, done, Except.map]

/-! What each file adds. -/

theorem file_of_mem_queryFile {service : Service} {project : Project} {query : CodeQuery} {file : String}
    {language : Option String} {found : List QueryMatch}
    (answered : ((queryFile project query file language).run service).1 = .ok found) {one : QueryMatch}
    (member : one ∈ found) : one.file = file := by
  rw [queryFile_eq, Action.run_bind_eq_ok_iff] at answered
  obtain ⟨captured, -, told⟩ := answered
  obtain ⟨all, made, cut⟩ := Outcome.bind_eq_ok_iff.mp told
  obtain ⟨kept, -, mapped⟩ := Outcome.bind_eq_ok_iff.mp (Outcome.mapError_eq_ok_iff.mp made)
  obtain ⟨capture, -, gives⟩ := Outcome.exists_of_mem_mapM mapped (mem_of_cutTo cut member)
  unfold matchOf at gives
  split at gives
  · cases gives
    rfl
  · cases gives

/-- A query over a language has all the results of a file exactly if there are none or the name of the file
ends in an extension of the language as it is written.  Among extensions in lower case this is to say that
the end of the name is in lower case, though the language of the file is told by it in any case. -/
theorem language_query_reaches_iff (service : Service) (project : Project) (query : CodeQuery)
    {language : String} (faithful : service.Faithful) (rootProper : project.root.Proper)
    (named : service.store.WellNamed) (nullFree : service.store.NullFree) (nonempty : language ≠ "")
    (plain : ∀ extension ∈ service.registry.extensionsOf language, File.PlainEnding extension)
    {names : List String} {last : String} (ends : names.getLast? = some last) {content : ByteArray}
    {modified : Binary64} (leads : service.store.LeadsTo project.root names (.file content modified))
    (told : service.registry.languageOf? (Path.text ⟨.relative, names⟩) = some language)
    {found : List QueryMatch}
    (answered : ((queryCode project { query with limit := .null } (some (Path.text ⟨.relative, names⟩))
      (some language)).run service).1 = .ok found) :
    ∃ all, ((queryCode project { query with limit := .null } none (some language)).run service).1 = .ok all ∧
      ((∀ one ∈ found, one ∈ all) ↔ found = [] ∨ service.registry.Spelled language last) ∧
      (service.registry.LowerCase →
        (service.registry.Spelled language last ↔ LanguageRegistry.LowerEnding last)) := by
  have listed := LanguageRegistry.mem_of_languageOf? told
  have plainName : ':' ∉ language.toList := by
    obtain ⟨_, -, twins⟩ := faithful
    exact twins.languages _ listed
  have known : service.registry.extensionsOf language ≠ [] :=
    List.ne_nil_of_mem (LanguageRegistry.mem_extensionsOf_iff.mpr listed)
  obtain ⟨files, enumerated, reached⟩ := mem_languageFiles_iff plain known named nullFree
  have whole := queryProject_null project query nonempty service
  rw [enumerated, Except.map, gather_of_faithful faithful rootProper _ plainName] at whole
  refine ⟨_, whole, ?_, fun lowerCase => lowerCase.spelled_iff ends told⟩
  rw [← reached ends leads]
  constructor
  · intro contained
    cases found with
    | nil => exact .inl rfl
    | cons first rest =>
        -- a result names the file in which it was found, both here and in the answer for the language
        obtain ⟨file, among, present⟩ := List.mem_flatMap.mp (contained first List.mem_cons_self)
        have own := file_of_mem_queryFile answered List.mem_cons_self
        cases asked :
          ((queryFile project { query with limit := .null } file (some language)).run service).1 with
        | error fault =>
            rw [asked] at present
            cases present
        | ok results =>
            rw [asked] at present
            have same := file_of_mem_queryFile asked present
            exact .inr (by rwa [← own, same])
  · rintro (rfl | member) one inFound
    · cases inFound
    · refine List.mem_flatMap.mpr ⟨_, member, ?_⟩
      have single : ((queryFile project { query with limit := .null } (Path.text ⟨.relative, names⟩)
          (some language)).run service).1 = .ok found := answered
      rw [single]
      exact inFound

/-- A file whose extension is in capitals has results of its own, and the query over its language has none
of them. -/
theorem capital_extension_not_reached :
    pairService.registry.languageOf? "c.PY" = some "python" ∧
      ((queryCode pairProject { query := "q", limit := .null } (some "c.PY") (some "python")).run
        pairService).1 = .ok [pairMatch "c.PY" "m", pairMatch "c.PY" "n"] ∧
      ∃ all, ((queryCode pairProject { query := "q", limit := .null } none (some "python")).run
        pairService).1 = .ok all ∧ ¬ ∀ one ∈ [pairMatch "c.PY" "m", pairMatch "c.PY" "n"], one ∈ all := by
  have told : pairService.registry.languageOf? (Path.text ⟨.relative, ["c.PY"]⟩) = some "python" := by
    decide
  have answered : ((queryCode pairProject { query := "q", limit := .null }
      (some (Path.text ⟨.relative, ["c.PY"]⟩)) (some "python")).run pairService).1 =
        .ok [pairMatch "c.PY" "m", pairMatch "c.PY" "n"] :=
    queryFile_pair (.inr (.inr rfl))
  have leads : pairService.store.LeadsTo pairProject.root ["c.PY"] (.file ⟨#[120]⟩ (.finite 0)) :=
    ⟨["p"], _, by cbv, by cbv⟩
  have ends : ["c.PY"].getLast? = some "c.PY" := rfl
  obtain ⟨all, whole, contained, lowerCase⟩ := language_query_reaches_iff pairService pairProject
    { query := "q" } faithful_pair (by decide) (by decide) (by decide) (by decide) (by decide) ends leads told
    answered
  refine ⟨told, answered, all, whole, ?_⟩
  rw [contained, lowerCase (by decide)]
  rintro (none | ⟨stem, ending, parts, noDot, lower⟩)
  · cases none
  · have read := nameEnding_of_last_dot parts noDot
    rw [lower] at read
    have small : nameEnding "c.PY" = "py" := by decide
    have ending_eq : ending = "py".toList := by
      rw [← small, read, String.toList_ofList]
    have lastCharacters := congrArg List.getLast? parts
    rw [ending_eq] at lastCharacters
    simp at lastCharacters

end Search

end Arborist
