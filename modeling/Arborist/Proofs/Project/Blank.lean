import Arborist.Analysis.Structure
import Arborist.Proofs.File.Blank
import Arborist.Proofs.Project.Policy

/-!
What a project tells without reading a file: the paths and the accesses it grants, its files, its
languages and its landmarks.  None of it depends on the bytes of the files.
-/

namespace Arborist

namespace Project

variable (store : Store)

theorem normalize_blank (path : Path) : normalize store.blank path = normalize store path := by
  have resolves : store.blank.resolve = store.resolve := funext store.resolve_blank
  unfold normalize
  rw [store.expandHome_blank, resolves]

theorem filePath_blank (project : Project) (file : String) :
    project.filePath store.blank file = project.filePath store file := by
  unfold filePath
  rw [normalize_blank]

theorem checkSize_blank (limit : Except Fault Value) (place : Path) :
    checkSize store.blank limit place = checkSize store limit place := by
  unfold checkSize
  rw [store.fileAt?_blank]
  cases store.fileAt? place with
  | none => rfl
  | some file => simp only [Option.map_some, size_blankBytes]

theorem checkAccess_blank (settings : Settings) (file root : String) :
    checkAccess store.blank settings file root = checkAccess store settings file root := by
  simp only [checkAccess, store.resolve_blank, checkSize_blank]

theorem languageCounts_blank (registry : LanguageRegistry) (root : Path) :
    languageCounts store.blank registry root = languageCounts store registry root := by
  simp only [languageCounts, File.walk, File.walkWhere_blank]

theorem scan_blank (project : Project) (registry : LanguageRegistry) (now : Binary64) (force : Bool) :
    project.scan store.blank registry now force = project.scan store registry now force := by
  unfold scan
  rw [languageCounts_blank]

end Project

theorem Search.filesWithExtension_blank (store : Store) (project : Project) (extension : String) :
    filesWithExtension store.blank project extension = filesWithExtension store project extension := by
  have files : store.blank.isFile = store.isFile := funext store.isFile_blank
  unfold filesWithExtension
  rw [File.glob_blank, files]

namespace Analysis

variable (store : Store)

theorem landmark?_blank (root : Path) (relative kind : String) :
    landmark? store.blank root relative kind = landmark? store root relative kind := by
  simp only [landmark?, store.isFile_blank]

theorem entryPoints_blank (root : Path) (languages : List String) :
    entryPoints store.blank root languages = entryPoints store root languages := by
  simp only [entryPoints, landmark?_blank]

theorem buildFiles_blank (root : Path) : buildFiles store.blank root = buildFiles store root := by
  simp only [buildFiles, landmark?_blank]

theorem visibleListings_blank (settings : Settings) (root : Path) :
    visibleListings store.blank settings root = visibleListings store settings root := by
  unfold visibleListings
  rw [store.entry?_blank]
  cases store.entry? root with
  | none => rfl
  | some entry => simp only [Option.map_some, File.walkWhere_blank]

theorem sampleFiles_blank (project : Project) (number : Nat) (extensions : List String) :
    ∀ found, sampleFiles store.blank project number found extensions =
      sampleFiles store project number found extensions := by
  induction extensions with
  | nil => exact fun found => rfl
  | cons extension rest ih =>
      intro found
      simp only [sampleFiles, Search.filesWithExtension_blank, ih]

end Analysis

end Arborist
