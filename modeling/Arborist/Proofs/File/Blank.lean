import Arborist.File.Glob
import Arborist.File.Walk
import Arborist.Proofs.File.Reading

/-!
A store with the bytes of its files blanked out: names, links, sizes and times of change stay.  Paths are
resolved, located, globbed and walked in it as in the store itself.
-/

namespace Arborist

def blankBytes (bytes : ByteArray) : ByteArray := ⟨Array.replicate bytes.size 0⟩

@[simp] theorem size_blankBytes (bytes : ByteArray) : (blankBytes bytes).size = bytes.size :=
  Array.size_replicate

mutual

def Entry.blank : Entry → Entry
  | .file content modified => .file (blankBytes content) modified
  | .link target => .link target
  | .directory children => .directory (blankEntries children)

def blankEntries : List (String × Entry) → List (String × Entry)
  | [] => []
  | (name, entry) :: rest => (name, entry.blank) :: blankEntries rest

end

theorem blankEntries_eq_map (children : List (String × Entry)) :
    blankEntries children = children.map fun (name, entry) => (name, entry.blank) := by
  induction children with
  | nil => rfl
  | cons head rest ih => simp [blankEntries, ih]

namespace Entry

theorem isFile_blank (entry : Entry) : entry.blank.isFile = entry.isFile := by
  cases entry <;> rfl

theorem isDirectory_blank (entry : Entry) : entry.blank.isDirectory = entry.isDirectory := by
  cases entry <;> rfl

theorem children_blank (entry : Entry) : entry.blank.children = blankEntries entry.children := by
  cases entry <;> rfl

theorem blank_eq_link_iff {entry : Entry} {target : String} :
    entry.blank = .link target ↔ entry = .link target := by
  cases entry <;> simp [blank]

end Entry

mutual

theorem Entry.linkCount_blank : ∀ entry : Entry, entry.blank.linkCount = entry.linkCount
  | .file _ _ => rfl
  | .link _ => rfl
  | .directory children => folderLinkCount_blank children

theorem folderLinkCount_blank : ∀ children : List (String × Entry),
    folderLinkCount (blankEntries children) = folderLinkCount children
  | [] => rfl
  | (_, entry) :: rest => by
      simp only [blankEntries, folderLinkCount, entry.linkCount_blank, folderLinkCount_blank rest]

end

namespace Folder

theorem get?_blank (folder : Folder) (name : String) :
    Folder.get? (blankEntries folder) name = (Folder.get? folder name).map Entry.blank := by
  unfold get?
  induction folder with
  | nil => rfl
  | cons head rest ih =>
      obtain ⟨other, entry⟩ := head
      simp only [blankEntries, List.lookup_cons, ih]
      split <;> rfl

theorem find?_blank (folder : Folder) (names : List String) :
    Folder.find? (blankEntries folder) names = (Folder.find? folder names).map Entry.blank := by
  induction names generalizing folder with
  | nil => rfl
  | cons name rest ih =>
      cases rest with
      | nil => exact get?_blank folder name
      | cons next others =>
          simp only [find?, get?_blank]
          cases Folder.get? folder name with
          | none => rfl
          | some entry =>
              cases entry with
              | directory children => exact ih children
              | file content modified => rfl
              | link target => rfl

end Folder

namespace Store

def blank (store : Store) : Store := { store with root := blankEntries store.root }

variable (store : Store)

theorem find?_blank (names : List String) : store.blank.find? names = (store.find? names).map Entry.blank :=
  Folder.find?_blank store.root names

theorem find?_blank_eq_link_iff {names : List String} {target : String} :
    store.blank.find? names = some (.link target) ↔ store.find? names = some (.link target) := by
  rw [find?_blank]
  cases store.find? names <;> simp [Entry.blank_eq_link_iff]

theorem startOf_blank (path : Path) : store.blank.startOf path = store.startOf path := rfl

/-! Resolving. -/

theorem resolveFrom_link {store : Store} {depth : Nat} {entered : List (List String)}
    {current others : List String} {name target : String} (notDots : name ≠ "..")
    (link : store.find? (current ++ [name]) = some (.link target)) :
    store.resolveFrom depth entered current (name :: others) =
      match depth with
      | 0 => .error (current ++ [name] ++ others)
      | depth + 1 =>
        if entered.contains (current ++ [name]) then .error (current ++ [name] ++ others)
        else
          match store.resolveFrom depth ((current ++ [name]) :: entered)
              (if (Path.ofString target).anchor = .relative then current else [])
              (Path.ofString target).components with
          | .ok reached => store.resolveFrom (depth + 1) entered reached others
          | .error stuck => .error (stuck ++ others) := by
  have unfolded := resolveFrom.eq_def store depth entered current (name :: others)
  simp only [notDots, if_false, link] at unfolded
  exact unfolded

theorem resolveFrom_blank (depth : Nat) (entered : List (List String)) (current rest : List String) :
    store.blank.resolveFrom depth entered current rest = store.resolveFrom depth entered current rest := by
  fun_induction store.resolveFrom depth entered current rest with
  | case1 => rw [resolveFrom]
  | case2 depth entered current others ih => simp [resolveFrom, ih]
  | case3 entered current name others notDots next target link =>
      rw [resolveFrom_link notDots (store.find?_blank_eq_link_iff.mpr link)]
  | case4 entered current name others notDots next target link depth again =>
      rw [resolveFrom_link notDots (store.find?_blank_eq_link_iff.mpr link)]
      exact if_pos again
  | case5 entered current name others notDots next target link depth fresh path start reached inner
      ihTarget ihRest =>
      have onTarget : store.blank.resolveFrom depth ((current ++ [name]) :: entered)
          (if (Path.ofString target).anchor = .relative then current else [])
          (Path.ofString target).components = .ok reached := ihTarget.trans inner
      rw [resolveFrom_link notDots (store.find?_blank_eq_link_iff.mpr link)]
      dsimp only
      rw [if_neg fresh, onTarget]
      exact ihRest
  | case6 entered current name others notDots next target link depth fresh path start stuck inner ihTarget =>
      have onTarget : store.blank.resolveFrom depth ((current ++ [name]) :: entered)
          (if (Path.ofString target).anchor = .relative then current else [])
          (Path.ofString target).components = .error stuck := ihTarget.trans inner
      rw [resolveFrom_link notDots (store.find?_blank_eq_link_iff.mpr link)]
      dsimp only
      rw [if_neg fresh, onTarget]
  | case7 depth entered current name others notDots next notLink ih =>
      have notBlankLink : ∀ target, store.blank.find? (current ++ [name]) ≠ some (.link target) :=
        fun target link => notLink target (store.find?_blank_eq_link_iff.mp link)
      rw [resolveFrom]
      simp only [notDots, if_false]
      exact ih

theorem resolve_blank (path : Path) : store.blank.resolve path = store.resolve path := by
  unfold resolve resolveComponents
  rw [startOf_blank, resolveFrom_blank]
  simp only [blank, folderLinkCount_blank]

theorem expandHome_blank (path : Path) : store.blank.expandHome path = store.expandHome path := rfl

/-! Locating. -/

theorem find?_blank_of_directory {names : List String} {children : Folder}
    (found : store.find? names = some (.directory children)) :
    store.blank.find? names = some (.directory (blankEntries children)) := by
  rw [find?_blank, found]
  rfl

theorem followFrom_link {store : Store} {depth : Nat} {current others : List String} {name target : String}
    {children : Folder} (found : store.find? current = some (.directory children)) (notDots : name ≠ "..")
    (link : Folder.get? children name = some (.link target)) :
    store.followFrom depth current (name :: others) =
      match depth with
      | 0 => .error .loop
      | depth + 1 =>
        match store.followFrom depth
            (if (Path.ofString target).anchor = .relative then current else [])
            (Path.ofString target).components with
        | .ok reached => store.followFrom (depth + 1) reached others
        | .error fault => .error fault := by
  have unfolded := followFrom.eq_def store depth current (name :: others)
  simp only [found, notDots, if_false, link] at unfolded
  exact unfolded

theorem followFrom_blank (depth : Nat) (current rest : List String) :
    store.blank.followFrom depth current rest = store.followFrom depth current rest := by
  have getBlank : ∀ {children : Folder} {name entry}, Folder.get? children name = some entry →
      Folder.get? (blankEntries children) name = some entry.blank := by
    intro children name entry present
    rw [Folder.get?_blank, present]
    rfl
  fun_induction store.followFrom depth current rest with
  | case1 => rw [followFrom]
  | case2 depth current name others missing =>
      rw [followFrom, find?_blank, missing]
      rfl
  | case3 depth current others children found ih =>
      rw [followFrom, store.find?_blank_of_directory found]
      exact ih
  | case4 depth current name others children found notDots missing =>
      rw [followFrom, store.find?_blank_of_directory found]
      simp only [notDots, if_false, Folder.get?_blank, missing, Option.map_none]
  | case5 current name others children found notDots target link =>
      rw [followFrom_link (store.find?_blank_of_directory found) notDots (getBlank link)]
  | case6 current name others children found notDots target link depth path start reached inner ihTarget
      ihRest =>
      have onTarget : store.blank.followFrom depth
          (if (Path.ofString target).anchor = .relative then current else [])
          (Path.ofString target).components = .ok reached := ihTarget.trans inner
      rw [followFrom_link (store.find?_blank_of_directory found) notDots (getBlank link)]
      dsimp only
      rw [onTarget]
      exact ihRest
  | case7 current name others children found notDots target link depth path start fault inner ihTarget =>
      have onTarget : store.blank.followFrom depth
          (if (Path.ofString target).anchor = .relative then current else [])
          (Path.ofString target).components = .error fault := ihTarget.trans inner
      rw [followFrom_link (store.find?_blank_of_directory found) notDots (getBlank link)]
      dsimp only
      rw [onTarget]
  | case8 depth current name others children found notDots entry notLink present ih =>
      have notBlankLink : ∀ target, entry.blank = .link target → False :=
        fun target link => notLink target (Entry.blank_eq_link_iff.mp link)
      rw [followFrom, store.find?_blank_of_directory found]
      simp only [notDots, if_false, getBlank present]
      exact ih
  | case9 depth current name others entry notDirectory found =>
      rw [followFrom, find?_blank, found]
      cases entry with
      | directory children => exact absurd rfl (notDirectory children)
      | file content modified => rfl
      | link target => rfl

theorem locate_blank (path : Path) :
    store.blank.locate path = (store.locate path).map fun (place, entry) => (place, entry.blank) := by
  have sameCount : folderLinkCount store.blank.root = folderLinkCount store.root :=
    folderLinkCount_blank store.root
  unfold locate
  rw [startOf_blank, followFrom_blank, sameCount]
  split
  · rfl
  · split
    · rfl
    next reached follows =>
      rw [find?_blank]
      cases store.find? reached <;> rfl

theorem entry?_blank (path : Path) : store.blank.entry? path = (store.entry? path).map Entry.blank := by
  unfold entry?
  rw [locate_blank]
  cases store.locate path <;> rfl

theorem fileExists_blank (path : Path) : store.blank.fileExists path = store.fileExists path := by
  unfold fileExists
  rw [entry?_blank]
  cases store.entry? path <;> rfl

theorem isFile_blank (path : Path) : store.blank.isFile path = store.isFile path := by
  unfold isFile
  rw [entry?_blank]
  cases store.entry? path with
  | none => rfl
  | some entry => exact entry.isFile_blank

theorem isDirectory_blank (path : Path) : store.blank.isDirectory path = store.isDirectory path := by
  unfold isDirectory
  rw [entry?_blank]
  cases store.entry? path with
  | none => rfl
  | some entry => exact entry.isDirectory_blank

theorem fileAt?_blank (path : Path) :
    store.blank.fileAt? path = (store.fileAt? path).map fun (content, modified) => (blankBytes content, modified) := by
  unfold fileAt?
  rw [entry?_blank]
  cases store.entry? path with
  | none => rfl
  | some entry => cases entry <;> rfl

theorem openFile_blank (text : String) :
    store.blank.openFile text =
      (store.openFile text).map fun (content, modified) => (blankBytes content, modified) := by
  unfold openFile
  dsimp only
  rw [locate_blank]
  split
  · rfl
  · split
    · rfl
    · cases store.locate (Path.ofString text) with
      | error fault => rfl
      | ok found =>
          obtain ⟨place, entry⟩ := found
          cases entry with
          | file content modified =>
              simp only [Except.map, Entry.blank]
              split <;> rfl
          | link target => rfl
          | directory children => rfl

end Store

namespace File

variable (store : Store)

/-! Globbing. -/

mutual

theorem directoriesBelow_blank (path : Path) : ∀ entry : Entry,
    directoriesBelow path entry.blank = directoriesBelow path entry
  | .file _ _ => rfl
  | .link _ => rfl
  | .directory children => by
      simp only [Entry.blank, directoriesBelow, directoriesIn_blank path children]

theorem directoriesIn_blank (path : Path) : ∀ children : List (String × Entry),
    directoriesIn path (blankEntries children) = directoriesIn path children
  | [] => rfl
  | (name, entry) :: rest => by
      simp only [blankEntries, directoriesIn, directoriesBelow_blank (path.child name) entry,
        directoriesIn_blank path rest]

end

theorem childrenAt_blank (path : Path) : childrenAt store.blank path = blankEntries (childrenAt store path) := by
  unfold childrenAt
  rw [store.entry?_blank]
  cases store.entry? path with
  | none => rfl
  | some entry => exact entry.children_blank

theorem select_blank (found : List Selector) (path : Path) :
    select store.blank found path = select store found path := by
  induction found generalizing path with
  | nil => rfl
  | cons selector rest ih =>
      cases selector with
      | here => rfl
      | up => exact ih _
      | exactly name => simp only [select, store.fileExists_blank, store.isDirectory_blank, ih]
      | fitting pattern =>
          simp only [select, childrenAt_blank, blankEntries_eq_map, List.flatMap_map,
            store.isDirectory_blank, ih]
      | anyDepth =>
          simp only [select, store.entry?_blank]
          cases store.entry? path with
          | none => rfl
          | some entry => simp only [Option.map_some, directoriesBelow_blank, ih]

theorem glob_blank (base : Path) (pattern : String) : glob store.blank base pattern = glob store base pattern := by
  simp only [glob, store.isDirectory_blank, select_blank]

/-! Walking. -/

theorem countsAsDirectory_blank (path : Path) (entry : Entry) :
    countsAsDirectory store.blank path entry.blank = countsAsDirectory store path entry := by
  cases entry with
  | link target => exact store.isDirectory_blank path
  | file content modified => rfl
  | directory children => rfl

mutual

theorem listingsBelow_blank (enter : String → Bool) (path : Path) : ∀ entry : Entry,
    listingsBelow enter store.blank path entry.blank = listingsBelow enter store path entry
  | .file _ _ => rfl
  | .link _ => rfl
  | .directory children => by
      have parts : (blankEntries children).partition
            (fun (name, entry) => countsAsDirectory store.blank (path.child name) entry) =
          ((children.partition fun (name, entry) =>
              countsAsDirectory store (path.child name) entry).1.map fun (name, entry) => (name, entry.blank),
            (children.partition fun (name, entry) =>
              countsAsDirectory store (path.child name) entry).2.map fun (name, entry) =>
                (name, entry.blank)) := by
        simp [List.partition_eq_filter_filter, blankEntries_eq_map, List.filter_map, Function.comp_def,
          countsAsDirectory_blank]
      simp only [Entry.blank, listingsBelow, parts, listingsIn_blank enter path children]
      simp [List.map_map, Function.comp_def]

theorem listingsIn_blank (enter : String → Bool) (path : Path) : ∀ children : List (String × Entry),
    listingsIn enter store.blank path (blankEntries children) = listingsIn enter store path children
  | [] => rfl
  | (name, entry) :: rest => by
      simp only [blankEntries, listingsIn, listingsBelow_blank enter (path.child name) entry,
        listingsIn_blank enter path rest]

end

theorem walkWhere_blank (path : Path) (enter : String → Bool) :
    walkWhere store.blank path enter = walkWhere store path enter := by
  unfold walkWhere
  rw [store.entry?_blank]
  cases store.entry? path with
  | none => rfl
  | some entry => exact listingsBelow_blank store enter path entry

end File

end Arborist
