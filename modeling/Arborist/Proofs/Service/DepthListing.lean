import Mathlib
import Arborist.Proofs.File.Levels
import Arborist.Proofs.Service.Listing

/-!
How deep a listing goes.  Without a depth all files are listed to which names lead through directories.  With
one, the files are listed that are exactly that many levels down, links to directories among the levels; and at
the root the endings are compared as they are written.
-/

namespace Arborist

structure TellsNames (texts : List String) (holds : List String → Prop) : Prop where
  nodup : texts.Nodup
  sorted : texts.Pairwise fun first second => decide (first ≤ second) = true
  mem_iff : ∀ text, text ∈ texts ↔ ∃ names, holds names ∧ text = Path.text ⟨.relative, names⟩
  proper : ∀ names, holds names → ∀ name ∈ names, Path.ProperName name

namespace TellsNames

variable {texts others : List String} {holds alsoHolds : List String → Prop}

theorem congr (told : TellsNames texts holds) (same : ∀ names, holds names ↔ alsoHolds names) :
    TellsNames texts alsoHolds := by
  obtain rfl : holds = alsoHolds := funext fun names => propext (same names)
  exact told

theorem text_mem_iff (told : TellsNames texts holds) {names : List String}
    (proper : ∀ name ∈ names, Path.ProperName name) :
    Path.text ⟨.relative, names⟩ ∈ texts ↔ holds names := by
  rw [told.mem_iff]
  constructor
  · rintro ⟨listed, holding, same⟩
    have leftProper : Path.Proper ⟨.relative, names⟩ := proper
    have rightProper : Path.Proper ⟨.relative, listed⟩ := told.proper listed holding
    cases Path.text_injective leftProper rightProper same
    exact holding
  · exact fun holding => ⟨names, holding, rfl⟩

theorem eq_filter_iff (told : TellsNames texts holds) (alsoTold : TellsNames others alsoHolds)
    (keep : List String → Bool) :
    texts = others.filter (fun text => keep (Path.ofString text).components) ↔
      ∀ names, holds names ↔ alsoHolds names ∧ keep names = true := by
  have readBack : ∀ {names}, (∀ name ∈ names, Path.ProperName name) →
      (Path.ofString (Path.text ⟨.relative, names⟩)).components = names := by
    intro names proper
    have whole : Path.Proper ⟨.relative, names⟩ := proper
    rw [Path.ofString_text whole]
  constructor
  · intro same names
    constructor
    · intro holding
      have proper := told.proper names holding
      have listed := (told.text_mem_iff proper).mpr holding
      rw [same, List.mem_filter, alsoTold.text_mem_iff proper, readBack proper] at listed
      exact listed
    · rintro ⟨holding, kept⟩
      have proper := alsoTold.proper names holding
      rw [← told.text_mem_iff proper, same, List.mem_filter, alsoTold.text_mem_iff proper, readBack proper]
      exact ⟨holding, kept⟩
  · intro same
    apply eq_of_sorted told.nodup (alsoTold.nodup.filter _) told.sorted (alsoTold.sorted.filter _)
    intro text
    rw [List.mem_filter, told.mem_iff, alsoTold.mem_iff]
    constructor
    · rintro ⟨names, holding, rfl⟩
      obtain ⟨alsoHolding, kept⟩ := (same names).mp holding
      exact ⟨⟨names, alsoHolding, rfl⟩, by rwa [readBack (alsoTold.proper names alsoHolding)]⟩
    · rintro ⟨⟨names, holding, rfl⟩, kept⟩
      rw [readBack (alsoTold.proper names holding)] at kept
      exact ⟨names, (same names).mpr ⟨holding, kept⟩, rfl⟩

end TellsNames

namespace Service

variable {children : Folder} {place : List String}

def hasEnding (endings : List String) (path : Path) : Bool :=
  endings.isEmpty || endings.contains (endingOf path)

theorem relativeTo?_down (root : Path) (names : List String) :
    (root.down names).relativeTo? root = some ⟨.relative, names⟩ :=
  relativeTo?_of_stepsTo rfl

section RelativeFiles

variable {store : Store} {root : Path} {endings : List String} {paths : List Path}
  (below : ∀ path ∈ paths, ∃ names, path = root.down names ∧ ∀ name ∈ names, Path.ProperName name)

include below

theorem nodup_relativeFiles (distinct : paths.Nodup) : (relativeFiles store root endings paths).Nodup := by
  rw [relativeFiles, (List.mergeSort_perm _ _).nodup_iff]
  apply List.pairwise_filterMap.mpr
  apply (distinct.filter _).imp_of_mem
  intro path other member otherMember different text isText text' isText' same
  obtain ⟨names, rfl, proper⟩ := below path (List.mem_filter.mp member).1
  obtain ⟨others, rfl, otherProper⟩ := below other (List.mem_filter.mp otherMember).1
  rw [relativeTo?_down] at isText isText'
  cases isText
  cases isText'
  have leftProper : Path.Proper ⟨.relative, names⟩ := proper
  have rightProper : Path.Proper ⟨.relative, others⟩ := otherProper
  cases Path.text_injective leftProper rightProper same
  exact different rfl

theorem mem_relativeFiles_iff (text : String) :
    text ∈ relativeFiles store root endings paths ↔
      ∃ names, (root.down names ∈ paths ∧ store.isFile (root.down names) = true ∧
        hasEnding endings (root.down names) = true) ∧ text = Path.text ⟨.relative, names⟩ := by
  rw [relativeFiles, List.mem_mergeSort, List.mem_filterMap]
  constructor
  · rintro ⟨path, member, isText⟩
    obtain ⟨among, passes⟩ := List.mem_filter.mp member
    obtain ⟨names, rfl, -⟩ := below path among
    rw [relativeTo?_down] at isText
    cases isText
    exact ⟨names, ⟨among, Bool.and_eq_true_iff.mp passes⟩, rfl⟩
  · rintro ⟨names, ⟨among, passes⟩, rfl⟩
    refine ⟨root.down names, List.mem_filter.mpr ⟨among, Bool.and_eq_true_iff.mpr passes⟩, ?_⟩
    rw [relativeTo?_down]
    rfl

theorem tellsNames_relativeFiles (distinct : paths.Nodup) :
    TellsNames (relativeFiles store root endings paths) fun names =>
      root.down names ∈ paths ∧ store.isFile (root.down names) = true ∧
        hasEnding endings (root.down names) = true where
  nodup := nodup_relativeFiles below distinct
  sorted := pairwise_mergeSort_texts _
  mem_iff := mem_relativeFiles_iff below
  proper := by
    intro names holding
    obtain ⟨others, same, proper⟩ := below _ holding.1
    rwa [Path.down_injective root same]

end RelativeFiles

/-- Names that all go down lead to a file. -/
def FileBelow (store : Store) (root : Path) (names : List String) : Prop :=
  ".." ∉ names ∧ store.isFile (root.down names) = true

/-- Names lead to something through directories alone, and not through links to directories. -/
def Straight (store : Store) (root : Path) (names : List String) : Prop :=
  ∃ entry, store.LeadsTo root names entry

variable {service : Service} {project : Project}

theorem listed_everything (distinct : Folder.Distinct service.store.root) (named : service.store.WellNamed)
    (nullFree : service.store.NullFree) (endings : List String) :
    ∃ all, ((listFiles project none none endings).run service).1 = .ok all ∧
      TellsNames all fun names => names ≠ [] ∧ FileBelow service.store project.root names ∧
        Straight service.store project.root names ∧
        hasEnding (endings.map Text.lowerString) (project.root.down names) = true := by
  have pattern : listingPattern none none = "**/*" := by decide
  rw [run_listFiles_of_ne_zero service project none (by simp) endings, pattern, File.glob_everything]
  have below : ∀ path ∈ File.pathsBelow service.store project.root,
      ∃ names, path = project.root.down names ∧ ∀ name ∈ names, Path.ProperName name := by
    intro path member
    obtain ⟨names, entry, -, leads, rfl⟩ := (File.mem_pathsBelow_iff distinct named nullFree).mp member
    exact ⟨names, rfl, fun name among => (leads.proper named name among).1⟩
  refine ⟨_, rfl, (tellsNames_relativeFiles below (File.nodup_pathsBelow _ _)).congr ?_⟩
  intro names
  rw [File.mem_pathsBelow_iff distinct named nullFree]
  constructor
  · rintro ⟨⟨others, entry, nonempty, leads, same⟩, file, fits⟩
    cases Path.down_injective _ same
    have noDots : ".." ∉ names := fun among => (leads.proper named ".." among).2 rfl
    exact ⟨nonempty, ⟨noDots, file⟩, ⟨entry, leads⟩, fits⟩
  · rintro ⟨nonempty, ⟨-, file⟩, ⟨entry, leads⟩, fits⟩
    exact ⟨⟨names, entry, nonempty, leads, rfl⟩, file, fits⟩

theorem listed_in_root (located : service.store.locate project.root = .ok (place, .directory children))
    (distinct : Folder.Distinct service.store.root) (named : service.store.WellNamed) (endings : List String) :
    ∃ listed, ((listFiles project none (some 0) endings).run service).1 = .ok listed ∧
      TellsNames listed fun names => names.length = 1 ∧ FileBelow service.store project.root names ∧
        hasEnding endings (project.root.down names) = true := by
  have here := Store.find?_of_locate located
  have present : ∀ child ∈ children, child ∈ entriesWithin service.store.root := fun child member =>
    Folder.within_subset_of_find? here (Folder.mem_entriesWithin member)
  have distinctPaths : (children.map fun child => project.root.child child.1).Nodup := by
    have names := (distinct.of_find? here).1.map (Path.down_injective project.root |>.comp List.singleton_injective)
    rwa [List.map_map] at names
  rw [run_listFiles_zero, located]
  have below : ∀ path ∈ children.map fun child => project.root.child child.1,
      ∃ names, path = project.root.down names ∧ ∀ name ∈ names, Path.ProperName name := by
    intro path member
    obtain ⟨child, among, rfl⟩ := List.mem_map.mp member
    exact ⟨[child.1], rfl, by simpa using (named child (present child among)).1⟩
  refine ⟨_, rfl, (tellsNames_relativeFiles below distinctPaths).congr ?_⟩
  intro names
  constructor
  · rintro ⟨member, file, fits⟩
    obtain ⟨child, among, same⟩ := List.mem_map.mp member
    obtain rfl := Path.down_injective project.root same
    exact ⟨rfl, ⟨by simpa using Ne.symm (named child (present child among)).2, file⟩, fits⟩
  · rintro ⟨single, ⟨noDots, file⟩, fits⟩
    obtain ⟨name, rfl⟩ := List.length_eq_one_iff.mp single
    obtain ⟨found, there⟩ := Store.exists_locate_of_isFile file
    obtain ⟨_, _, alsoLocated, inside⟩ := Store.exists_directory_of_locate_down there
    cases located.symm.trans alsoLocated
    obtain ⟨entry, among⟩ := inside (List.ne_of_not_mem_cons noDots).symm
    exact ⟨List.mem_map.mpr ⟨(name, entry), among, rfl⟩, file, fits⟩

theorem listingPattern_stars (depth : Nat) :
    listingPattern none (some ((depth + 1 : Nat) : Int)) =
      String.join (List.replicate (depth + 1) "*/") ++ "/*" := by
  have parts : Text.pieces "**" "**/*" = ["", "/*"] := by decide
  have bound : boundPattern "**/*" (depth + 1) = String.join (List.replicate (depth + 1) "*/") ++ "/*" := by
    simp [boundPattern, parts]
  have letters : (String.join (List.replicate (depth + 1) "*/") ++ "/*").toList =
      '*' :: '/' :: (String.join (List.replicate depth "*/")).toList ++ ['/', '*'] := by
    rw [List.replicate_succ, String.join_cons]
    simp
  have positive : (0 : Int) < ((depth + 1 : Nat) : Int) := by omega
  unfold listingPattern
  dsimp only
  rw [if_pos positive, Int.toNat_natCast, bound, letters]
  rfl

theorem listed_below_root (located : service.store.locate project.root = .ok (place, .directory children))
    (distinct : Folder.Distinct service.store.root) (named : service.store.WellNamed) (depth : Nat)
    (endings : List String) :
    ∃ listed, ((listFiles project none (some ((depth + 1 : Nat) : Int)) endings).run service).1 = .ok listed ∧
      TellsNames listed fun names => names.length = depth + 2 ∧ FileBelow service.store project.root names ∧
        hasEnding (endings.map Text.lowerString) (project.root.down names) = true := by
  have deeper : some ((depth + 1 : Nat) : Int) ≠ some 0 := by
    intro same
    have zero := Option.some.inj same
    omega
  have directory : service.store.isDirectory project.root = true := by
    simp [Store.isDirectory, Store.entry?, located, Entry.isDirectory]
  rw [run_listFiles_of_ne_zero service project none deeper endings, listingPattern_stars, File.glob_stars,
    if_pos directory]
  have plain : ∀ selector ∈ List.replicate (depth + 2) (File.Selector.fitting "*"), selector.Plain := by
    intro selector among
    rw [List.eq_of_mem_replicate among]
    trivial
  have below : ∀ path ∈ File.select service.store (List.replicate (depth + 2) (.fitting "*")) project.root,
      ∃ names, path = project.root.down names ∧ ∀ name ∈ names, Path.ProperName name := by
    intro path member
    obtain ⟨names, steps, proper, -⟩ := File.exists_names_of_mem_select named plain member
    exact ⟨names, steps, proper⟩
  refine ⟨_, rfl, (tellsNames_relativeFiles below (File.nodup_select_stars distinct named _ _)).congr ?_⟩
  intro names
  constructor
  · rintro ⟨member, file, fits⟩
    obtain ⟨others, long, noDots, same⟩ := (File.mem_select_stars_iff named file).mp member
    cases Path.down_injective _ same
    exact ⟨long, ⟨noDots, file⟩, fits⟩
  · rintro ⟨long, ⟨noDots, file⟩, fits⟩
    exact ⟨(File.mem_select_stars_iff named file).mpr ⟨names, long, noDots, rfl⟩, file, fits⟩

/-- The endings that a file is compared with: at the root they are taken as they are written. -/
def comparedEndings (endings : List String) (depth : Nat) : List String :=
  if depth = 0 then endings else endings.map Text.lowerString

theorem listed_at_depth (located : service.store.locate project.root = .ok (place, .directory children))
    (distinct : Folder.Distinct service.store.root) (named : service.store.WellNamed) (depth : Nat)
    (endings : List String) :
    ∃ listed, ((listFiles project none (some (depth : Int)) endings).run service).1 = .ok listed ∧
      TellsNames listed fun names => names.length = depth + 1 ∧ FileBelow service.store project.root names ∧
        hasEnding (comparedEndings endings depth) (project.root.down names) = true := by
  cases depth with
  | zero => exact listed_in_root located distinct named endings
  | succ depth => exact listed_below_root located distinct named depth endings

theorem not_fileBelow_nil (located : service.store.locate project.root = .ok (place, .directory children)) :
    ¬ FileBelow service.store project.root [] := by
  rintro ⟨-, file⟩
  rw [Path.down_nil] at file
  simp [Store.isFile, Store.entry?, located, Entry.isFile] at file

/-- Two descriptions that differ in the levels, the links and the endings agree exactly if none of the three matters. -/
theorem same_level_iff {file straight fits compared : List String → Prop} (depth : Nat) :
    (∀ names, (names.length = depth + 1 ∧ file names ∧ compared names) ↔
        (file names ∧ straight names ∧ fits names) ∧ names.length ≤ depth + 1) ↔
      (∀ names, file names → straight names → fits names → depth < names.length) ∧
        (∀ names, names.length = depth + 1 → file names → compared names → straight names) ∧
        (∀ names, names.length = depth + 1 → file names → straight names → (compared names ↔ fits names)) := by
  constructor
  · intro same
    refine ⟨?_, ?_, ?_⟩
    · intro names isFile isStraight fitting
      by_contra high
      have long := ((same names).mpr ⟨⟨isFile, isStraight, fitting⟩, by omega⟩).1
      omega
    · intro names long isFile fitting
      exact ((same names).mp ⟨long, isFile, fitting⟩).1.2.1
    · intro names long isFile isStraight
      constructor
      · exact fun fitting => ((same names).mp ⟨long, isFile, fitting⟩).1.2.2
      · exact fun fitting => ((same names).mpr ⟨⟨isFile, isStraight, fitting⟩, long.le⟩).2.2
  · rintro ⟨noneHigher, noneCrossing, alike⟩ names
    constructor
    · rintro ⟨long, isFile, fitting⟩
      have isStraight := noneCrossing names long isFile fitting
      exact ⟨⟨isFile, isStraight, (alike names long isFile isStraight).mp fitting⟩, long.le⟩
    · rintro ⟨⟨isFile, isStraight, fitting⟩, notDeeper⟩
      have deep := noneHigher names isFile isStraight fitting
      have long : names.length = depth + 1 := by omega
      exact ⟨long, isFile, (alike names long isFile isStraight).mpr fitting⟩

/-- A listing without a depth tells the files with a fitting ending that are reached through directories alone, and
one with a depth those that are exactly so many levels down, so that two depths have no file in common.  The second
is the part of the first that goes no deeper exactly if no file of the first lies higher, no file of the second is
reached through a link to a directory, and the endings say the same there as they do in lower case. -/
theorem depth_listing_exact_iff (service : Service) (project : Project) (depth : Nat) (endings : List String)
    (place : List String) (children : Folder)
    (located : service.store.locate project.root = .ok (place, .directory children))
    (distinct : Folder.Distinct service.store.root) (named : service.store.WellNamed)
    (nullFree : service.store.NullFree) :
    let listing (depth : Option Int) := ((listFiles project none depth endings).run service).1
    let file := FileBelow service.store project.root
    let straight := Straight service.store project.root
    let fits (names : List String) := hasEnding (endings.map Text.lowerString) (project.root.down names) = true
    let compared (names : List String) :=
      hasEnding (comparedEndings endings depth) (project.root.down names) = true
    ∃ all listed, listing none = .ok all ∧ listing (some depth) = .ok listed ∧
      (∀ text, text ∈ all ↔ ∃ names, (file names ∧ straight names ∧ fits names) ∧
        text = Path.text ⟨.relative, names⟩) ∧
      (∀ text, text ∈ listed ↔ ∃ names, (names.length = depth + 1 ∧ file names ∧ compared names) ∧
        text = Path.text ⟨.relative, names⟩) ∧
      (∀ other : Nat, other ≠ depth →
        ∃ others, listing (some other) = .ok others ∧ List.Disjoint listed others) ∧
      (listed = all.filter (fun text => (Path.ofString text).components.length ≤ depth + 1) ↔
        (∀ names, file names → straight names → fits names → depth < names.length) ∧
        (∀ names, names.length = depth + 1 → file names → compared names → straight names) ∧
        (∀ names, names.length = depth + 1 → file names → straight names → (compared names ↔ fits names))) := by
  intro listing file straight fits compared
  obtain ⟨all, everything, toldAll⟩ := listed_everything distinct named nullFree endings
  obtain ⟨listed, atDepth, told⟩ := listed_at_depth located distinct named depth endings
  have toldAll : TellsNames all fun names => file names ∧ straight names ∧ fits names := by
    apply toldAll.congr
    intro names
    refine ⟨And.right, fun holding => ⟨?_, holding⟩⟩
    rintro rfl
    exact not_fileBelow_nil located holding.1
  refine ⟨all, listed, everything, atDepth, toldAll.mem_iff, told.mem_iff, ?_, ?_⟩
  · intro other different
    obtain ⟨others, atOther, toldOther⟩ := listed_at_depth located distinct named other endings
    refine ⟨others, atOther, ?_⟩
    intro text member otherMember
    obtain ⟨names, holding, rfl⟩ := (told.mem_iff text).mp member
    have otherLong := ((toldOther.text_mem_iff (told.proper names holding)).mp otherMember).1
    have long := holding.1
    omega
  · have compare := told.eq_filter_iff toldAll fun names => decide (names.length ≤ depth + 1)
    simp only [decide_eq_true_eq] at compare
    exact compare.trans (same_level_iff depth)

def terraced : Service :=
  { store :=
      { root := [("p", .directory [("a", .file .empty (.finite 0)),
          ("d", .directory [("b", .file .empty (.finite 0))])])] } }

theorem located_terraced :
    terraced.store.locate (.absolute ["p"]) = .ok (["p"], .directory [("a", .file .empty (.finite 0)),
      ("d", .directory [("b", .file .empty (.finite 0))])]) := by
  have settled : terraced.store.Settled ["p"] := Store.settled_of_no_links (by decide) (by decide)
  exact Store.locate_of_settled settled (by decide) rfl

theorem fileBelow_terraced : FileBelow terraced.store (.absolute ["p"]) ["a"] := by
  have leads : terraced.store.LeadsTo (.absolute ["p"]) ["a"] (.file .empty (.finite 0)) :=
    ⟨_, _, located_terraced, rfl⟩
  obtain ⟨place, located⟩ := leads.locate (by decide) (by decide) rfl
  refine ⟨by decide, ?_⟩
  simp [Path.down, Store.isFile, Store.entry?, located, Entry.isFile]

/-- One level down the file beside the directory is no longer listed. -/
theorem higher_file_unlisted :
    let project : Project := { name := "p", root := .absolute ["p"] }
    (∃ place children, terraced.store.locate project.root = .ok (place, .directory children)) ∧
      Folder.Distinct terraced.store.root ∧ terraced.store.WellNamed ∧ terraced.store.NullFree ∧
      ∃ all listed, ((listFiles project none none []).run terraced).1 = .ok all ∧
        ((listFiles project none (some 1) []).run terraced).1 = .ok listed ∧
        "a" ∈ all ∧ "a" ∉ listed ∧
        listed ≠ all.filter (fun text => (Path.ofString text).components.length ≤ 2) := by
  intro project
  refine ⟨⟨_, _, located_terraced⟩, by decide, by decide, by decide, ?_⟩
  obtain ⟨all, listed, everything, atDepth, toldAll, -, -, exact_iff⟩ :=
    depth_listing_exact_iff terraced project 1 [] _ _ located_terraced (by decide) (by decide) (by decide)
  have among : "a" ∈ all :=
    (toldAll "a").mpr ⟨["a"], ⟨fileBelow_terraced, ⟨_, _, _, located_terraced, rfl⟩, rfl⟩, by decide⟩
  have unequal : listed ≠ all.filter (fun text => (Path.ofString text).components.length ≤ 2) := by
    intro same
    have deep := (exact_iff.mp same).1 ["a"] fileBelow_terraced ⟨_, _, _, located_terraced, rfl⟩ rfl
    exact absurd deep (by decide)
  obtain ⟨-, top, -, -, -, toldTop, apart, -⟩ :=
    depth_listing_exact_iff terraced project 0 [] _ _ located_terraced (by decide) (by decide) (by decide)
  have atTop : "a" ∈ top := (toldTop "a").mpr ⟨["a"], ⟨rfl, fileBelow_terraced, rfl⟩, by decide⟩
  obtain ⟨others, again, disjoint⟩ := apart 1 (by decide)
  cases atDepth.symm.trans again
  exact ⟨all, listed, everything, atDepth, among, disjoint atTop, unequal⟩

end Service

end Arborist
