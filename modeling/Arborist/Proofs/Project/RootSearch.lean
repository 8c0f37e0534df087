import Mathlib.Data.List.Infix
import Arborist.Proofs.File.Globbing
import Arborist.Proofs.Project.Containment

/-!
The root of the project of a path.  It is the nearest marked directory at or above the one where the search
starts, and where the search starts if there is none.  A path without links stands for itself, and so do all
directories above it; therefore the search gives a root again when it starts at one.
-/

namespace Arborist

namespace Store

variable {store : Store}

theorem hasNull_append (names others : List String) :
    hasNull (names ++ others) = (hasNull names || hasNull others) :=
  List.any_append

theorem hasNull_eq_false_of_isPrefix {names others : List String} (starts : names <+: others)
    (noNull : hasNull others = false) : hasNull names = false := by
  obtain ⟨rest, rfl⟩ := starts
  rw [hasNull_append, Bool.or_eq_false_iff] at noNull
  exact noNull.1

/-- Components that lead to a place without links, double dots and null characters. -/
structure Standing (store : Store) (names : List String) : Prop where
  settled : store.Settled names
  noNull : hasNull names = false

theorem Standing.of_isPrefix {names above : List String} (standing : store.Standing names)
    (starts : above <+: names) : store.Standing above where
  settled := standing.settled.of_isPrefix starts
  noNull := hasNull_eq_false_of_isPrefix starts standing.noNull

theorem Standing.resolve_eq {names : List String} (standing : store.Standing names) :
    store.resolve (.absolute names) = .ok (.absolute names) :=
  resolve_of_settled rfl standing.settled standing.noNull

theorem Standing.locate_eq_ok_iff {names reached : List String} {entry : Entry} (standing : store.Standing names) :
    store.locate (.absolute names) = .ok (reached, entry) ↔ reached = names ∧ store.find? names = some entry := by
  constructor
  · intro located
    obtain rfl := place_of_locate rfl standing.settled located
    exact ⟨rfl, find?_of_locate located⟩
  · rintro ⟨rfl, found⟩
    exact locate_of_settled standing.settled standing.noNull found

theorem Standing.entry?_eq {names : List String} (standing : store.Standing names) :
    store.entry? (.absolute names) = store.find? names := by
  ext entry
  rw [ entry?]
  cases located : store.locate (.absolute names) with
  | error fault =>
      have nothing : store.find? names ≠ some entry := by
        intro found
        rw [standing.locate_eq_ok_iff.mpr ⟨rfl, found⟩] at located
        cases located
      simpa using nothing
  | ok found =>
      obtain ⟨reached, other⟩ := found
      rw [(standing.locate_eq_ok_iff.mp located).2]

/-- A store as the system shows it: the working directory is told by its own place, and no null character
stands in its path or in the target of a link. -/
structure Orderly (store : Store) : Prop where
  directory : store.Standing store.workingDirectory
  directoryProper : ∀ name ∈ store.workingDirectory, Path.ProperName name
  targets : ∀ pair ∈ entriesWithin store.root, ∀ target, pair.2 = .link target →
    hasNull (Path.ofString target).components = false

theorem Orderly.startOf (orderly : store.Orderly) (path : Path) : store.Standing (store.startOf path) := by
  unfold Store.startOf
  split
  · exact orderly.directory
  · exact ⟨settled_nil store, rfl⟩

theorem Orderly.targets_allowed (orderly : store.Orderly) {place : List String} {target : String}
    (linked : store.find? place = some (.link target)) :
    ∀ name ∈ (Path.ofString target).components, hasNull [name] = false := by
  have nonempty : place ≠ [] := by
    rintro rfl
    cases linked
  obtain ⟨last, member⟩ := Folder.exists_name_of_find? nonempty linked
  have noNull := orderly.targets _ member target rfl
  intro name among
  simpa [hasNull] using List.any_eq_false.mp noNull name among

theorem Orderly.standing_of_resolve (orderly : store.Orderly) {path place : Path}
    (resolved : store.resolve path = .ok place) : store.Standing place.components := by
  obtain ⟨reached, rfl, noNull, reaches⟩ := resolve_eq_ok_iff.mp resolved
  refine ⟨resolveFrom_settled reaches (orderly.startOf path).settled, ?_⟩
  have holds : ∀ name ∈ path.components, hasNull [name] = false := by
    intro name among
    simpa [hasNull] using List.any_eq_false.mp noNull name among
  have goesUp : ∀ names, hasNull names = false → hasNull names.dropLast = false :=
    fun names known => hasNull_eq_false_of_isPrefix (List.dropLast_prefix names) known
  have goesDown : ∀ names name, hasNull names = false → hasNull [name] = false → name ≠ ".." →
      (∀ target, store.find? (names ++ [name]) ≠ some (.link target)) → hasNull (names ++ [name]) = false := by
    intro names name known allowed _ _
    rw [hasNull_append, known, allowed]
    rfl
  exact @resolveFrom_invariant store _ _ _ _ _ (fun name => hasNull [name] = false) (fun names => hasNull names = false)
    rfl goesUp goesDown (fun _ _ linked => orderly.targets_allowed linked) reaches (orderly.startOf path).noNull holds

end Store

namespace Project

variable {store : Store}

/-- The nearest marked directory among one and those above it, the root of the file system not among them. -/
structure Nearest (store : Store) (start root : List String) : Prop where
  nonempty : root ≠ []
  above : root <+: start
  marked : hasMarker store root = true
  first : ∀ between, root <+: between → between <+: start → hasMarker store between = true → between = root

def Unmarked (store : Store) (start : List String) : Prop :=
  ∀ names, names ≠ [] → names <+: start → hasMarker store names = false

theorem nearestMarked?_concat (above : List String) (name : String) :
    nearestMarked? store (above ++ [name]).reverse =
      if hasMarker store (above ++ [name]) then some (above ++ [name])
      else nearestMarked? store above.reverse := by
  rw [List.reverse_concat, nearestMarked?, List.reverse_cons, List.reverse_reverse]

theorem nearest_of_nearestMarked? {start root : List String}
    (found : nearestMarked? store start.reverse = some root) : Nearest store start root := by
  induction start using List.reverseRecOn with
  | nil => cases found
  | append_singleton above name ih =>
      rw [nearestMarked?_concat] at found
      split at found
      next marked =>
        cases found
        refine ⟨by simp, List.prefix_rfl, marked, ?_⟩
        intro between around within _
        exact within.eq_of_length_le around.length_le
      next unmarked =>
        obtain ⟨nonempty, inside, marked, first⟩ := ih found
        refine ⟨nonempty, inside.trans (List.prefix_append above [name]), marked, ?_⟩
        intro between around within alsoMarked
        rcases List.prefix_concat_iff.mp within with rfl | inAbove
        · exact absurd alsoMarked unmarked
        · exact first between around inAbove alsoMarked

theorem unmarked_of_nearestMarked? {start : List String}
    (found : nearestMarked? store start.reverse = none) : Unmarked store start := by
  induction start using List.reverseRecOn with
  | nil =>
      intro names nonempty within
      exact absurd (List.prefix_nil.mp within) nonempty
  | append_singleton above name ih =>
      rw [nearestMarked?_concat] at found
      split at found
      next => cases found
      next unmarked =>
        intro names nonempty within
        rcases List.prefix_concat_iff.mp within with rfl | inAbove
        · simpa using unmarked
        · exact ih found names nonempty inAbove

theorem nearestMarked?_of_marked {root : List String} (nonempty : root ≠ [])
    (marked : hasMarker store root = true) : nearestMarked? store root.reverse = some root := by
  obtain ⟨above, name, rfl⟩ := (List.eq_nil_or_concat' root).resolve_left nonempty
  rw [nearestMarked?_concat, if_pos marked]

def searchStart (store : Store) (place : Path) : Path :=
  if store.isFile place then place.parent else place

theorem rootOf_of_normalize {path place : Path} (normalized : normalize store path = .ok place) :
    rootOf store path =
      match nearestMarked? store (searchStart store place).components.reverse with
      | some names => .ok (.absolute names)
      | none => .ok (searchStart store place) := by
  rw [rootOf, normalized, Outcome.ok_bind]
  rfl

theorem standing_of_normalize (orderly : store.Orderly) {path place : Path}
    (normalized : normalize store path = .ok place) : store.Standing place.components := by
  rw [normalize, liftFile_eq_ok_iff, Outcome.bind_eq_ok_iff] at normalized
  obtain ⟨expanded, -, resolved⟩ := normalized
  exact orderly.standing_of_resolve resolved

theorem normalize_of_standing {names : List String} (standing : store.Standing names) :
    normalize store (.absolute names) = .ok (.absolute names) := by
  rw [normalize_eq_ok_iff_of_anchored (by simp [Path.absolute])]
  exact standing.resolve_eq

theorem isDirectory_above {above rest : List String} {entry : Entry} (standing : store.Standing (above ++ rest))
    (nonempty : rest ≠ []) (found : store.find? (above ++ rest) = some entry) :
    store.isDirectory (.absolute above) = true := by
  obtain ⟨children, here, -⟩ := Folder.exists_directory_of_find?_append nonempty found
  have stands := (standing.of_isPrefix (List.prefix_append above rest)).entry?_eq
  rw [Store.isDirectory, stands, Store.find?, here]
  rfl

theorem isDirectory_of_marked {root : List String} (standing : store.Standing root)
    (marked : hasMarker store root = true) : store.isDirectory (.absolute root) = true := by
  obtain ⟨marker, -, there⟩ := List.any_eq_true.mp marked
  rw [Store.fileExists, Option.isSome_iff_exists] at there
  obtain ⟨entry, there⟩ := there
  rw [ Store.entry?] at there
  cases located : store.locate (.absolute (root ++ [marker])) with
  | error fault => simp [located] at there
  | ok found =>
      obtain ⟨reached, other⟩ := found
      have follows := Store.followFrom_of_locate located
      rw [Path.absolute, Store.followFrom_append] at follows
      obtain ⟨middle, leads, last⟩ := Outcome.bind_eq_ok_iff.mp follows
      have place : middle = root := Store.eq_of_followFrom_of_settled standing.settled leads
      -- only from a directory does the name of the marker lead on
      rw [place, Store.followFrom] at last
      split at last
      next => cases last
      next children here =>
        rw [Store.isDirectory, standing.entry?_eq, here]
        rfl
      next => cases last

theorem isFile_of_isDirectory {path : Path} (directory : store.isDirectory path = true) :
    store.isFile path = false := by
  unfold Store.isDirectory at directory
  unfold Store.isFile
  cases found : store.entry? path with
  | none => rfl
  | some entry =>
      rw [found] at directory
      cases entry with
      | directory children => rfl
      | file content modified => cases directory
      | link target => cases directory

theorem searchStart_isPrefix (place : Path) :
    (searchStart store place).components <+: place.components := by
  unfold searchStart
  split
  · exact List.dropLast_prefix _
  · exact List.prefix_rfl

theorem searchStart_absolute (names : List String) :
    searchStart store (.absolute names) = .absolute (searchStart store (.absolute names)).components := by
  unfold searchStart
  split <;> rfl

theorem isFile_searchStart {names : List String} (standing : store.Standing names) :
    store.isFile (searchStart store (.absolute names)) = false := by
  by_cases file : store.isFile (.absolute names) = true
  · rw [searchStart, if_pos file]
    rw [Store.isFile, standing.entry?_eq] at file
    obtain rfl | ⟨above, name, rfl⟩ := List.eq_nil_or_concat' names
    · cases file
    cases found : store.find? (above ++ [name]) with
    | none => simp [found] at file
    | some entry =>
        have here := isFile_of_isDirectory (isDirectory_above standing (List.cons_ne_nil name []) found)
        simpa [Path.parent, Path.absolute] using here
  · rw [searchStart, if_neg file]
    simpa using file

theorem searchStart_of_not_file {place : Path} (notFile : store.isFile place = false) :
    searchStart store place = place := by
  rw [searchStart, notFile]
  rfl

theorem rootOf_spec {path : Path} {names : List String} (standing : store.Standing names)
    (normalized : normalize store path = .ok (.absolute names)) :
    ∃ root, rootOf store path = .ok (.absolute root) ∧
      root <+: (searchStart store (.absolute names)).components ∧
      (Nearest store (searchStart store (.absolute names)).components root ∨
        root = (searchStart store (.absolute names)).components ∧
          Unmarked store (searchStart store (.absolute names)).components) ∧
      rootOf store (.absolute root) = .ok (.absolute root) := by
  rw [rootOf_of_normalize normalized]
  cases found : nearestMarked? store (searchStart store (.absolute names)).components.reverse with
  | some root =>
      have nearest := nearest_of_nearestMarked? found
      have rootStands := standing.of_isPrefix (nearest.above.trans (searchStart_isPrefix _))
      have notFile := isFile_of_isDirectory (isDirectory_of_marked rootStands nearest.marked)
      refine ⟨root, rfl, nearest.above, .inl nearest, ?_⟩
      rw [rootOf_of_normalize (normalize_of_standing rootStands), searchStart_of_not_file notFile]
      simp only [Path.absolute, nearestMarked?_of_marked nearest.nonempty nearest.marked]
  | none =>
      have start := @searchStart_absolute store names
      have startStands := standing.of_isPrefix (@searchStart_isPrefix store (.absolute names))
      have again := searchStart_of_not_file (isFile_searchStart standing)
      refine ⟨_, by rw [← start], List.prefix_rfl, .inr ⟨rfl, unmarked_of_nearestMarked? found⟩, ?_⟩
      rw [rootOf_of_normalize (normalize_of_standing startStands), ← start, again]
      simp only [found]

end Project

namespace ProjectList

variable {store : Store}

theorem create_eq_ok_iff {name text : String} {description : Value} {project : Project} :
    create store name text description = .ok project ↔
      ∃ place root, Project.normalize store (.ofString text) = .ok place ∧ store.isDirectory place = true ∧
        Project.rootOf store place = .ok root ∧ project = { name, root, description } := by
  have there : ∀ {place}, store.isDirectory place = true → store.fileExists place = true := by
    intro place directory
    unfold Store.isDirectory at directory
    unfold Store.fileExists
    cases found : store.entry? place with
    | none => simp [found] at directory
    | some entry => rfl
  unfold create
  rw [Outcome.bind_eq_ok_iff]
  constructor
  · rintro ⟨place, normalized, rest⟩
    cases present : store.fileExists place with
    | false => simp [present] at rest
    | true =>
        cases directory : store.isDirectory place with
        | false => simp [present, directory] at rest
        | true =>
            simp only [present, directory, Bool.not_true, Bool.false_eq_true, if_false] at rest
            obtain ⟨root, searched, made⟩ := Outcome.bind_eq_ok_iff.mp rest
            cases made
            exact ⟨place, root, normalized, directory, searched, rfl⟩
  · rintro ⟨place, root, normalized, directory, searched, rfl⟩
    refine ⟨place, normalized, ?_⟩
    simp [there directory, directory, searched]

theorem expandHome_proper {path expanded : Path} (proper : path.Proper)
    (told : store.expandHome path = .ok expanded) : expanded.Proper := by
  unfold Store.expandHome at told
  split at told
  next first rest anchored named =>
    split at told
    · cases told
      apply (Path.ofString_proper _).join
      intro name member
      exact proper name (named ▸ List.mem_cons_of_mem first member)
    · split at told
      · cases told
      · cases told
        exact proper
  next =>
    cases told
    exact proper

theorem normalize_proper (orderly : store.Orderly) {text : String} {place : Path}
    (normalized : Project.normalize store (.ofString text) = .ok place) : place.Proper := by
  rw [Project.normalize, Project.liftFile_eq_ok_iff, Outcome.bind_eq_ok_iff] at normalized
  obtain ⟨expanded, told, resolved⟩ := normalized
  exact Store.resolve_proper resolved (expandHome_proper (Path.ofString_proper text) told)
    fun _ => orderly.directoryProper

theorem create_at_root (orderly : store.Orderly) {name text : String} {description : Value} {project : Project}
    (created : create store name text description = .ok project) (again : String) (note : Value) :
    create store again project.root.text note = .ok { name := again, root := project.root, description := note } := by
  obtain ⟨place, root, normalized, directory, searched, rfl⟩ := create_eq_ok_iff.mp created
  have proper := normalize_proper orderly normalized
  obtain ⟨names, rfl⟩ := Project.exists_absolute_of_normalize normalized
  have standing : store.Standing names := Project.standing_of_normalize orderly normalized
  obtain ⟨found, gives, within, -, stable⟩ :=
    Project.rootOf_spec standing (Project.normalize_of_standing standing)
  cases gives.symm.trans searched
  rw [Project.searchStart_of_not_file (Project.isFile_of_isDirectory directory)] at within
  have above : found <+: names := within
  have foundProper : (Path.absolute found).Proper := fun name member => proper name (above.subset member)
  have foundStands := standing.of_isPrefix above
  have foundDirectory : store.isDirectory (.absolute found) = true := by
    obtain ⟨rest, rfl⟩ := above
    by_cases ends : rest = []
    · simpa [ends] using directory
    · rw [Store.isDirectory, standing.entry?_eq] at directory
      cases here : store.find? (found ++ rest) with
      | none => simp [here] at directory
      | some entry => exact Project.isDirectory_above standing ends here
  apply create_eq_ok_iff.mpr
  refine ⟨.absolute found, .absolute found, ?_, foundDirectory, stable, rfl⟩
  rw [Path.ofString_text foundProper]
  exact Project.normalize_of_standing foundStands

theorem register_eq_ok_iff {projects more : ProjectList} {name text : String} {description : Value}
    {project : Project} :
    register projects store name text description = .ok (project, more) ↔
      projects.lookup name = none ∧ create store name text description = .ok project ∧
        more = projects ++ [(name, project)] := by
  unfold register
  cases known : projects.lookup name with
  | some other => simp
  | none =>
      cases create store name text description with
      | error fault => simp
      | ok made =>
          simp only [Option.isSome_none, Bool.false_eq_true, if_false, Except.ok.injEq, Prod.mk.injEq, true_and]
          constructor
          · rintro ⟨rfl, rfl⟩
            exact ⟨rfl, rfl⟩
          · rintro ⟨rfl, rfl⟩
            exact ⟨rfl, rfl⟩

end ProjectList

namespace Project

theorem hasMarker_of_no_links {store : Store} {names : List String} (standing : store.Standing names)
    (noLinks : ∀ marker ∈ rootMarkers, (store.find? (names ++ [marker])).any Entry.isLink = false) :
    hasMarker store names = rootMarkers.any fun marker => (store.find? (names ++ [marker])).isSome := by
  have plain : ∀ marker ∈ rootMarkers, marker ≠ ".." ∧ Store.hasNull [marker] = false := by decide
  have onEach : ∀ marker ∈ rootMarkers, store.fileExists (.absolute (names ++ [marker])) =
      (store.find? (names ++ [marker])).isSome := by
    intro marker member
    have notLink : ∀ target, store.find? (names ++ [marker]) ≠ some (.link target) := by
      intro target linked
      simpa [linked, Entry.isLink] using noLinks marker member
    have settled := standing.settled.concat (plain marker member).1 notLink
    have noNull : Store.hasNull (names ++ [marker]) = false := by
      rw [Store.hasNull_append, standing.noNull, (plain marker member).2]
      rfl
    rw [Store.fileExists, Store.Standing.entry?_eq ⟨settled, noNull⟩]
  unfold hasMarker
  rw [Bool.eq_iff_iff, List.any_eq_true, List.any_eq_true]
  constructor
  · rintro ⟨marker, member, there⟩
    exact ⟨marker, member, onEach marker member ▸ there⟩
  · rintro ⟨marker, member, there⟩
    exact ⟨marker, member, (onEach marker member).symm ▸ there⟩

def nestedStore : Store :=
  { root := [("p", .directory [(".git", .directory []), ("s", .directory [("f", .file .empty (.finite 0))])])] }

theorem standing_nested : nestedStore.Standing ["p", "s", "f"] :=
  ⟨Store.settled_of_no_links (by decide) (by decide), by decide⟩

theorem orderly_nested : nestedStore.Orderly where
  directory := ⟨Store.settled_nil _, rfl⟩
  directoryProper := by simp [nestedStore]
  targets := by simp [nestedStore, entriesWithin, Entry.within]

theorem hasMarker_nested : hasMarker nestedStore ["p"] = true ∧ hasMarker nestedStore ["p", "s"] = false := by
  constructor
  · rw [hasMarker_of_no_links (standing_nested.of_isPrefix (by decide))]
    · decide
    · decide
  · rw [hasMarker_of_no_links (standing_nested.of_isPrefix (by decide))]
    · decide
    · decide

theorem eq_of_nearest_nested {names : List String} (nearest : Nearest nestedStore ["p", "s"] names) :
    names = ["p"] := by
  have above := nearest.above
  cases names with
  | nil => exact absurd rfl nearest.nonempty
  | cons first others =>
      obtain ⟨rfl, within⟩ := List.cons_prefix_cons.mp above
      cases others with
      | nil => rfl
      | cons second more =>
          obtain ⟨rfl, ends⟩ := List.cons_prefix_cons.mp within
          have alsoMarked := nearest.marked
          rw [List.prefix_nil.mp ends, hasMarker_nested.2] at alsoMarked
          cases alsoMarked

end Project

end Arborist
