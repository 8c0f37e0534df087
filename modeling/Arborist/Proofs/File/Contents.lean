import Arborist.Proofs.File.Reading
import Arborist.Proofs.Number.ShortestText

/-!
All entries of a store, at whatever depth, with their names.  What can be found in a store, or listed
in one of its directories, is among them.
-/

namespace Arborist

mutual

def Entry.within : Entry → List (String × Entry)
  | .directory children => entriesWithin children
  | _ => []

def entriesWithin : List (String × Entry) → List (String × Entry)
  | [] => []
  | (name, entry) :: rest => (name, entry) :: (entry.within ++ entriesWithin rest)

end

namespace Folder

variable {folder : Folder} {entry : Entry} {name : String}

theorem mem_entriesWithin (member : (name, entry) ∈ folder) : (name, entry) ∈ entriesWithin folder := by
  induction folder with
  | nil => cases member
  | cons head rest ih =>
      obtain ⟨other, first⟩ := head
      rcases List.mem_cons.mp member with same | inRest
      · rw [same, entriesWithin]
        exact List.mem_cons_self
      · simp [entriesWithin, ih inRest]

theorem within_subset (member : (name, entry) ∈ folder) : entry.within ⊆ entriesWithin folder := by
  induction folder with
  | nil => cases member
  | cons head rest ih =>
      obtain ⟨other, first⟩ := head
      intro pair below
      rcases List.mem_cons.mp member with same | inRest
      · cases same
        simp [entriesWithin, below]
      · simp [entriesWithin, ih inRest below]

theorem mem_of_get? (found : Folder.get? folder name = some entry) : (name, entry) ∈ folder := by
  obtain ⟨before, after, parts, -⟩ := List.lookup_eq_some_iff.mp found
  simp [parts]

theorem exists_children_of_find? {name next : String} {rest : List String}
    (found : Folder.find? folder (name :: next :: rest) = some entry) :
    ∃ children, (name, .directory children) ∈ folder ∧
      Folder.find? children (next :: rest) = some entry := by
  simp only [find?] at found
  split at found
  next children here => exact ⟨children, mem_of_get? here, found⟩
  next => cases found

theorem within_subset_of_find? {components : List String} (found : Folder.find? folder components = some entry) :
    entry.within ⊆ entriesWithin folder := by
  fun_induction Folder.find? folder components with
  | case1 folder =>
      cases found
      exact List.Subset.refl _
  | case2 folder name => exact within_subset (mem_of_get? found)
  | case3 folder name rest _ children inside ih =>
      exact List.Subset.trans (ih found) (within_subset (mem_of_get? inside))
  | case4 => cases found

theorem exists_name_of_find? {components : List String} (nonempty : components ≠ [])
    (found : Folder.find? folder components = some entry) :
    ∃ name, (name, entry) ∈ entriesWithin folder := by
  fun_induction Folder.find? folder components with
  | case1 => exact absurd rfl nonempty
  | case2 folder name => exact ⟨name, mem_entriesWithin (mem_of_get? found)⟩
  | case3 folder name rest notEmpty children inside ih =>
      obtain ⟨last, member⟩ := ih notEmpty found
      exact ⟨last, within_subset (mem_of_get? inside) member⟩
  | case4 => cases found

end Folder

namespace Store

variable {store : Store} {path : Path}

theorem exists_name_of_fileAt? {content : ByteArray} {modified : Binary64}
    (here : store.fileAt? path = some (content, modified)) :
    ∃ name, (name, .file content modified) ∈ entriesWithin store.root := by
  obtain ⟨place, located⟩ := fileAt?_eq_some_iff.mp here
  have stands := find?_of_locate located
  apply Folder.exists_name_of_find? _ stands
  rintro rfl
  cases stands

theorem within_subset_of_entry? {entry : Entry} (here : store.entry? path = some entry) :
    entry.within ⊆ entriesWithin store.root := by
  unfold entry? at here
  cases located : store.locate path with
  | error fault => simp [located] at here
  | ok found =>
      obtain ⟨place, other⟩ := found
      obtain rfl : other = entry := by simpa [located] using here
      exact Folder.within_subset_of_find? (find?_of_locate located)

/-- The times of change of all files are numbers of the format. -/
def Dated (store : Store) : Prop :=
  ∀ pair ∈ entriesWithin store.root, match pair.2 with
    | .file _ modified => modified.Representable
    | _ => True

instance (store : Store) : Decidable store.Dated :=
  @List.decidableBAll _ _ (fun pair => match pair.2 with
    | .file _ modified => inferInstanceAs (Decidable modified.Representable)
    | .link _ => isTrue trivial
    | .directory _ => isTrue trivial) _

/-- All names are names, and none stands for the directory above. -/
def WellNamed (store : Store) : Prop :=
  ∀ pair ∈ entriesWithin store.root, Path.ProperName pair.1 ∧ pair.1 ≠ ".."

instance (store : Store) : Decidable store.WellNamed :=
  inferInstanceAs (Decidable (∀ pair ∈ entriesWithin store.root, Path.ProperName pair.1 ∧ pair.1 ≠ ".."))

theorem Dated.representable (dated : store.Dated) {content : ByteArray} {modified : Binary64}
    (here : store.fileAt? path = some (content, modified)) :
    modified.Representable := by
  obtain ⟨name, member⟩ := exists_name_of_fileAt? here
  exact dated _ member

end Store

end Arborist
