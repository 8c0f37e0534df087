import Mathlib.Data.Set.Card
import Arborist.Project.Basic
import Arborist.Proofs.Data.Enumeration
import Arborist.Proofs.File.Levels

/-!
How many files of each language a project has.  The count of a language is the number of the files of that
language of which no component is hidden; but the components of the root are among those that are asked.
-/

namespace Arborist.Project

/-! Counting languages one after another. -/

theorem lookup_countLanguage (language : String) (counts : List (String × Nat)) (other : String) :
    (countLanguage language counts).lookup other =
      if other = language then some ((counts.lookup language).getD 0 + 1) else counts.lookup other := by
  induction counts with
  | nil =>
      by_cases same : other = language
      · simp [countLanguage, same]
      · simp [countLanguage, List.lookup_cons, same, beq_eq_false_iff_ne.mpr same]
  | cons entry rest ih =>
      obtain ⟨first, count⟩ := entry
      by_cases here : first = language
      · by_cases same : other = language
        · simp [countLanguage, here, same]
        · simp [countLanguage, List.lookup_cons, here, same, beq_eq_false_iff_ne.mpr same]
      · have notFirst : (language == first) = false := beq_eq_false_iff_ne.mpr (Ne.symm here)
        by_cases same : other = first
        · simp [countLanguage, here, same]
        · have different : (other == first) = false := beq_eq_false_iff_ne.mpr same
          simp only [countLanguage, beq_iff_eq, here, if_false, List.lookup_cons, different, notFirst, ih]

theorem mem_names_countLanguage {language name : String} {counts : List (String × Nat)} :
    name ∈ (countLanguage language counts).map Prod.fst ↔ name = language ∨ name ∈ counts.map Prod.fst := by
  induction counts with
  | nil => simp [countLanguage]
  | cons entry rest ih =>
      by_cases here : entry.1 = language
      · simp [countLanguage, here]
      · simp only [countLanguage, beq_iff_eq, here, if_false, List.map_cons, List.mem_cons, ih]
        exact or_left_comm

theorem nodup_countLanguage {language : String} {counts : List (String × Nat)}
    (distinct : (counts.map Prod.fst).Nodup) : ((countLanguage language counts).map Prod.fst).Nodup := by
  induction counts with
  | nil => simp [countLanguage]
  | cons entry rest ih =>
      obtain ⟨fresh, distinctRest⟩ := List.nodup_cons.mp distinct
      by_cases here : entry.1 = language
      · simpa [countLanguage, here] using distinct
      · have later : entry.1 ∉ (countLanguage language rest).map Prod.fst := by
          rw [mem_names_countLanguage]
          exact not_or.mpr ⟨here, fresh⟩
        simp only [countLanguage, beq_iff_eq, here, if_false, List.map_cons]
        exact List.nodup_cons.mpr ⟨later, ih distinctRest⟩

def tally (languages : List String) : List (String × Nat) :=
  languages.foldl (fun counts language => countLanguage language counts) []

theorem lookup_foldl_countLanguage (languages : List String) (counts : List (String × Nat)) (other : String) :
    (languages.foldl (fun counts language => countLanguage language counts) counts).lookup other =
      if languages.count other = 0 then counts.lookup other
      else some ((counts.lookup other).getD 0 + languages.count other) := by
  induction languages generalizing counts with
  | nil => simp
  | cons language rest ih =>
      rw [List.foldl_cons, ih, lookup_countLanguage]
      by_cases same : other = language
      · subst same
        rw [List.count_cons_self]
        by_cases none : rest.count other = 0
        · simp [none]
        · simp [none]
          omega
      · have different : (language == other) = false := beq_eq_false_iff_ne.mpr (Ne.symm same)
        simp [List.count_cons, same, different]

theorem lookup_tally (languages : List String) (language : String) :
    (tally languages).lookup language =
      if languages.count language = 0 then none else some (languages.count language) := by
  rw [tally, lookup_foldl_countLanguage]
  simp

theorem nodup_tally (languages : List String) : ((tally languages).map Prod.fst).Nodup := by
  have grows : ∀ counts : List (String × Nat), (counts.map Prod.fst).Nodup →
      ((languages.foldl (fun counts language => countLanguage language counts) counts).map Prod.fst).Nodup := by
    induction languages with
    | nil => exact fun _ distinct => distinct
    | cons language rest ih => exact fun counts distinct => ih _ (nodup_countLanguage distinct)
  exact grows [] List.nodup_nil

/-! The files that are met on a walk. -/

def shown (listings : List File.Listing) : List String :=
  (listings.filter fun listing => !(listing.directory.segments.any isHidden)).flatMap fun listing =>
    listing.files.filter fun name => !isHidden name

theorem shown_append (listings others : List File.Listing) :
    shown (listings ++ others) = shown listings ++ shown others := by
  simp [shown]

def isShown (store : Store) (test : String → Bool) (path : Path) (entry : Entry) : Bool :=
  !File.countsAsDirectory store path entry && !path.segments.any isHidden && test path.name

theorem segments_child (path : Path) (name : String) : (path.child name).segments = path.segments ++ [name] := by
  unfold Path.segments Path.child
  split <;> simp

theorem name_child (path : Path) (name : String) : (path.child name).name = name := by
  simp [Path.name, Path.child]

theorem countP_shown_here (store : Store) (test : String → Bool) (path : Path) (names : List String)
    (children : List (String × Entry)) :
    (shown [⟨path, names, (children.filter fun child =>
        !File.countsAsDirectory store (path.child child.1) child.2).map Prod.fst⟩]).countP test =
      children.countP fun child => isShown store test (path.child child.1) child.2 := by
  have onChild : ∀ child : String × Entry, isShown store test (path.child child.1) child.2 =
      (!File.countsAsDirectory store (path.child child.1) child.2 && !path.segments.any isHidden &&
        !isHidden child.1 && test child.1) := by
    intro child
    rw [isShown, segments_child, name_child]
    simp [Bool.and_assoc]
  simp only [onChild]
  cases hidden : path.segments.any isHidden with
  | true => simp [shown, hidden]
  | false =>
      simp only [shown, List.filter_cons, hidden, Bool.not_false, if_true, List.filter_nil, List.flatMap_cons,
        List.flatMap_nil, List.append_nil, List.countP_filter, List.countP_map, Bool.and_true]
      apply List.countP_congr
      intro child _
      simp only [Function.comp_apply, Bool.and_eq_true]
      tauto

mutual

theorem countP_shown_below (store : Store) (test : String → Bool) : ∀ (path : Path) (entry : Entry),
    (shown (File.listingsBelow (fun _ => true) store path entry)).countP test =
      entry.descents.countP fun descent => isShown store test (path.down descent.1) descent.2
  | _, .file _ _ => rfl
  | _, .link _ => rfl
  | path, .directory children => by
      have files : (children.partition fun child =>
          File.countsAsDirectory store (path.child child.1) child.2).2 =
            children.filter fun child => !File.countsAsDirectory store (path.child child.1) child.2 := by
        rw [List.partition_eq_filter_filter]
        rfl
      have parts : File.listingsBelow (fun _ => true) store path (.directory children) =
          [⟨path, ((children.partition fun child =>
              File.countsAsDirectory store (path.child child.1) child.2).1.map Prod.fst).filter fun _ => true,
            (children.filter fun child =>
              !File.countsAsDirectory store (path.child child.1) child.2).map Prod.fst⟩] ++
            File.listingsIn (fun _ => true) store path children := by
        rw [← files]
        rfl
      rw [Entry.descents, ← countP_shown_in store test path children, parts, shown_append, List.countP_append,
        countP_shown_here]

theorem countP_shown_in (store : Store) (test : String → Bool) : ∀ (path : Path) (children : List (String × Entry)),
    (children.countP fun child => isShown store test (path.child child.1) child.2) +
        (shown (File.listingsIn (fun _ => true) store path children)).countP test =
      (descentsIn children).countP fun descent => isShown store test (path.down descent.1) descent.2
  | _, [] => rfl
  | path, (name, entry) :: rest => by
      have onEntry := countP_shown_below store test (path.child name) entry
      have onRest := countP_shown_in store test path rest
      have inner : (entry.descents.map fun (names, found) => (name :: names, found)).countP
          (fun descent => isShown store test (path.down descent.1) descent.2) =
            entry.descents.countP fun descent => isShown store test ((path.child name).down descent.1) descent.2 := by
        rw [List.countP_map]
        simp only [Path.down_child]
        rfl
      have first : isShown store test (path.down [name]) entry = isShown store test (path.child name) entry := rfl
      rw [File.listingsIn, if_pos rfl, shown_append, descentsIn, List.cons_append, List.countP_cons, List.countP_cons,
        List.countP_append, List.countP_append, inner, ← onEntry, ← onRest]
      dsimp only
      rw [first]
      omega

end

theorem languageCounts_eq_tally (store : Store) (registry : LanguageRegistry) (root : Path) :
    languageCounts store registry root =
      tally ((shown (File.walk store root)).filterMap registry.languageOf?) := rfl

theorem count_languages (registry : LanguageRegistry) (names : List String) (language : String) :
    (names.filterMap registry.languageOf?).count language =
      names.countP fun name => registry.languageOf? name == some language := by
  induction names with
  | nil => rfl
  | cons name rest ih =>
      rw [List.filterMap_cons, List.countP_cons, ← ih]
      cases registry.languageOf? name with
      | none => simp
      | some other => simp [List.count_cons]

/-- Names lead from a root through directories to a file whose name tells a language.  A link is a file unless it
leads to a directory. -/
def FileOf (store : Store) (registry : LanguageRegistry) (root : Path) (language : String)
    (names : List String) : Prop :=
  ∃ entry, store.LeadsTo root names entry ∧ File.countsAsDirectory store (root.down names) entry = false ∧
    registry.languageOf? (root.down names).name = some language

def filesOf (store : Store) (registry : LanguageRegistry) (root : Path) (language : String) : List (List String) :=
  ((((store.entry? root).map Entry.descents).getD []).filter fun descent =>
    !File.countsAsDirectory store (root.down descent.1) descent.2 &&
      registry.languageOf? (root.down descent.1).name == some language).map Prod.fst

theorem enumerates_filesOf {store : Store} (distinct : Folder.Distinct store.root) (registry : LanguageRegistry)
    (root : Path) (language : String) :
    Enumerates (filesOf store registry root language) (FileOf store registry root language) := by
  by_cases here : ∃ place children, store.locate root = .ok (place, .directory children)
  · obtain ⟨place, children, located⟩ := here
    have told := @enumerates_descents children (distinct.of_find? (Store.find?_of_locate located))
      (fun names entry => !File.countsAsDirectory store (root.down names) entry &&
        registry.languageOf? (root.down names).name == some language) fun inner => rfl
    have listed : filesOf store registry root language = ((descentsIn children).filter fun descent =>
        !File.countsAsDirectory store (root.down descent.1) descent.2 &&
          registry.languageOf? (root.down descent.1).name == some language).map Prod.fst := by
      simp [filesOf, Store.entry?, located, Entry.descents]
    rw [listed]
    refine ⟨told.nodup, ?_⟩
    intro names
    rw [told.mem_iff]
    simp only [FileOf, Store.leadsTo_iff located, Bool.and_eq_true, Bool.not_eq_true', beq_iff_eq]
  · have nothing : filesOf store registry root language = [] := by
      unfold filesOf Store.entry?
      cases located : store.locate root with
      | error fault => rfl
      | ok found =>
          obtain ⟨place, entry⟩ := found
          cases entry with
          | directory children => exact absurd ⟨place, children, located⟩ here
          | file content modified => rfl
          | link target => rfl
    rw [nothing]
    refine ⟨List.nodup_nil, ?_⟩
    intro names
    refine iff_of_false List.not_mem_nil ?_
    rintro ⟨entry, ⟨place, children, located, -⟩, -⟩
    exact here ⟨place, children, located⟩

theorem lookup_languageCounts (store : Store) (registry : LanguageRegistry) (root : Path) (language : String) :
    (languageCounts store registry root).lookup language =
      let files := (filesOf store registry root language).filter fun names =>
        !(root.down names).segments.any isHidden
      if files.length = 0 then none else some files.length := by
  have walked : (shown (File.walk store root)).countP (fun name => registry.languageOf? name == some language) =
      (((store.entry? root).map Entry.descents).getD []).countP fun descent =>
        isShown store (fun name => registry.languageOf? name == some language) (root.down descent.1) descent.2 := by
    unfold File.walk File.walkWhere
    cases store.entry? root with
    | none => rfl
    | some entry => exact countP_shown_below store _ root entry
  have counted : ((filesOf store registry root language).filter fun names =>
      !(root.down names).segments.any isHidden).length =
        (shown (File.walk store root)).countP fun name => registry.languageOf? name == some language := by
    rw [walked, filesOf, ← List.countP_eq_length_filter, List.countP_map, List.countP_filter]
    apply List.countP_congr
    intro descent _
    simp only [Function.comp_apply, isShown, Bool.and_eq_true]
    tauto
  rw [languageCounts_eq_tally, lookup_tally, count_languages]
  simp only [counted]

theorem any_isHidden_down (root : Path) (names : List String) :
    (root.down names).segments.any isHidden = (root.components.any isHidden || names.any isHidden) := by
  have anchors : ∀ anchor : Anchor, isHidden anchor.text = false := by
    intro anchor
    cases anchor <;> decide
  unfold Path.segments Path.down
  split
  · exact List.any_append
  · rw [List.any_cons, anchors, Bool.false_or]
    exact List.any_append

theorem languageCounts_of_hidden {store : Store} {root : Path} (hidden : root.components.any isHidden = true)
    (registry : LanguageRegistry) : languageCounts store registry root = [] := by
  have nothing : ∀ language, (languageCounts store registry root).lookup language = none := by
    intro language
    rw [lookup_languageCounts]
    simp [any_isHidden_down, hidden]
  cases counts : languageCounts store registry root with
  | nil => rfl
  | cons first rest =>
      have there := nothing first.1
      rw [counts, List.lookup_cons, beq_self_eq_true] at there
      cases there

theorem lookup_languageCounts_of_visible {store : Store} {root : Path}
    (visible : root.components.any isHidden = false) (registry : LanguageRegistry) (language : String) :
    (languageCounts store registry root).lookup language =
      let files := (filesOf store registry root language).filter fun names => !names.any isHidden
      if files.length = 0 then none else some files.length := by
  rw [lookup_languageCounts]
  simp only [any_isHidden_down, visible, Bool.false_or]

def visibleFiles (store : Store) (registry : LanguageRegistry) (root : Path) (language : String) :
    Set (List String) :=
  {names | FileOf store registry root language names ∧ ∀ name ∈ names, isHidden name = false}

/-- Each language that has some files is there with their number, and no other is. -/
def CountsExactly (counts : List (String × Nat)) (files : String → Set (List String)) : Prop :=
  ∀ language, counts.lookup language = if (files language).ncard = 0 then none else some (files language).ncard

theorem countsExactly_nil_iff {files : String → Set (List String)} (finite : ∀ language, (files language).Finite) :
    CountsExactly [] files ↔ ∀ language, files language = ∅ := by
  constructor
  · intro counted language
    apply (Set.ncard_eq_zero (finite language)).mp
    by_contra some
    have there := counted language
    rw [if_neg some] at there
    cases there
  · intro nothing language
    rw [nothing language, Set.ncard_empty]
    rfl

section Visible

variable {store : Store} (distinct : Folder.Distinct store.root) (registry : LanguageRegistry) (root : Path)

include distinct

theorem enumerates_visibleFiles (language : String) :
    Enumerates ((filesOf store registry root language).filter fun names => !names.any isHidden)
      (· ∈ visibleFiles store registry root language) := by
  have told := (enumerates_filesOf distinct registry root language).filter fun names => !names.any isHidden
  refine ⟨told.nodup, ?_⟩
  intro names
  rw [told.mem_iff]
  simp only [Bool.not_eq_true', List.any_eq_false, Bool.not_eq_true]
  rfl

theorem countsExactly_of_visible (visible : root.components.any isHidden = false) :
    CountsExactly (languageCounts store registry root) (visibleFiles store registry root) := by
  intro language
  have number := (enumerates_visibleFiles distinct registry root language).ncard_eq
  rw [Set.ofPred_mem_eq] at number
  rw [lookup_languageCounts_of_visible visible, number]

end Visible

/-- A forced scan tells the number of the files of each language below the root of which no name is hidden, exactly
if no component of the root is hidden or there is no such file.  Under a hidden directory nothing is counted. -/
theorem scan_exact_iff (store : Store) (distinct : Folder.Distinct store.root) (registry : LanguageRegistry)
    (project : Project) (now : Binary64) :
    let counts := (project.scan store registry now true).languages
    let files := visibleFiles store registry project.root
    (∀ language, (files language).Finite) ∧ (counts.map Prod.fst).Nodup ∧
      (CountsExactly counts files ↔
        (∀ name ∈ project.root.components, isHidden name = false) ∨ ∀ language, files language = ∅) ∧
      ((∃ name ∈ project.root.components, isHidden name = true) → counts = []) := by
  intro counts files
  have counts_eq : counts = languageCounts store registry project.root := rfl
  have finite : ∀ language, (files language).Finite := fun language =>
    (enumerates_visibleFiles distinct registry project.root language).finite
  refine ⟨finite, ?_, ?_, ?_⟩
  · rw [counts_eq, languageCounts_eq_tally]
    exact nodup_tally _
  · cases hidden : project.root.components.any isHidden with
    | true =>
        obtain ⟨name, member, dotted⟩ := List.any_eq_true.mp hidden
        have notVisible : ¬ ∀ name ∈ project.root.components, isHidden name = false := by
          intro visible
          rw [visible name member] at dotted
          cases dotted
        rw [counts_eq, languageCounts_of_hidden hidden, countsExactly_nil_iff finite, or_iff_right notVisible]
    | false =>
        have visible : ∀ name ∈ project.root.components, isHidden name = false := by
          intro name member
          simpa using List.any_eq_false.mp hidden name member
        exact iff_of_true (countsExactly_of_visible distinct registry project.root hidden) (.inl visible)
  · rintro ⟨name, member, dotted⟩
    rw [counts_eq]
    exact languageCounts_of_hidden (List.any_eq_true.mpr ⟨name, member, dotted⟩) registry

def hiddenStore : Store :=
  { root := [(".h", .directory [("a.c", .file .empty (.finite 0))])] }

theorem fileOf_hidden : FileOf hiddenStore {} (.absolute [".h"]) "c" ["a.c"] := by
  have settled : hiddenStore.Settled [".h"] := Store.settled_of_no_links (by decide) (by decide)
  have located : hiddenStore.locate (.absolute [".h"]) =
      .ok ([".h"], .directory [("a.c", .file .empty (.finite 0))]) :=
    Store.locate_of_settled settled (by decide) rfl
  exact ⟨_, ⟨_, _, located, rfl⟩, rfl, by decide⟩

theorem hidden_root_uncounted :
    Folder.Distinct hiddenStore.root ∧
      let project : Project := { name := "p", root := .absolute [".h"] }
      let counts := (project.scan hiddenStore {} (.finite 0) true).languages
      counts = [] ∧ ["a.c"] ∈ visibleFiles hiddenStore {} project.root "c" ∧
        ¬ CountsExactly counts (visibleFiles hiddenStore {} project.root) := by
  refine ⟨by decide, ?_⟩
  intro project counts
  obtain ⟨-, -, exactly, hides⟩ := scan_exact_iff hiddenStore (by decide) {} project (.finite 0)
  have visible : ["a.c"] ∈ visibleFiles hiddenStore {} project.root "c" := ⟨fileOf_hidden, by decide⟩
  refine ⟨hides ⟨".h", by decide, by decide⟩, visible, ?_⟩
  intro counted
  rcases exactly.mp counted with shown | nothing
  · exact absurd (shown ".h" (by decide)) (by decide)
  · rw [nothing] at visible
    exact visible

end Arborist.Project
