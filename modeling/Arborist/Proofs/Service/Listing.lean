import Mathlib
import Arborist.Proofs.File.Climb
import Arborist.Proofs.Service.ActionRun
import Arborist.Service.Files

/-!
Where the listed files of a project lie.  A listing leads no further up than its pattern, so without
climbing it stays in the root; a listed path that does climb lies in the root only if it comes back by
the components that it has left.
-/

namespace Arborist.Service

/-- The pattern that is looked for, with its depth put in and without a slash in front. -/
def listingPattern (pattern : Option String) (depth : Option Int) : String :=
  let pattern := match pattern with
    | some "" | none => "**/*"
    | some pattern => pattern
  let pattern := match depth with
    | some depth => if 0 < depth then boundPattern pattern depth.toNat else pattern
    | none => pattern
  match pattern.toList with
  | '/' :: rest => String.ofList rest
  | _ => pattern

theorem run_listFiles_zero (service : Service) (project : Project) (pattern : Option String)
    (endings : List String) :
    ((listFiles project pattern (some 0) endings).run service).1 =
      match service.store.locate project.root with
      | .ok (_, .directory children) =>
          .ok (relativeFiles service.store project.root endings
            (children.map fun (name, _) => project.root.child name))
      | .ok _ => .error (.file (.notDirectory project.root.text))
      | .error fault => .error (.file (fault.at project.root.text)) := by
  unfold listFiles
  rw [Action.run_bind, Action.run_get]
  dsimp only
  cases service.store.locate project.root with
  | error fault => rfl
  | ok found =>
      obtain ⟨place, entry⟩ := found
      cases entry <;> rfl

theorem run_listFiles_of_ne_zero (service : Service) (project : Project) (pattern : Option String)
    {depth : Option Int} (deeper : depth ≠ some 0) (endings : List String) :
    ((listFiles project pattern depth endings).run service).1 =
      match File.glob service.store project.root (listingPattern pattern depth) with
      | .ok paths => .ok (relativeFiles service.store project.root (endings.map Text.lowerString) paths)
      | .error fault => .error (.pattern fault) := by
  have notZero : (depth == some 0) = false := by simpa using deeper
  unfold listFiles
  rw [Action.run_bind, Action.run_get]
  simp only [notZero, Bool.false_eq_true, if_false]
  change (Action.run (match File.glob service.store project.root (listingPattern pattern depth) with
    | .ok paths => pure (relativeFiles service.store project.root (endings.map Text.lowerString) paths)
    | .error fault => throw (.pattern fault)) service).1 = _
  cases File.glob service.store project.root (listingPattern pattern depth) <;> rfl

theorem exists_relative_of_mem_relativeFiles {store : Store} {root : Path} {endings : List String}
    {paths : List Path} {text : String} (member : text ∈ relativeFiles store root endings paths) :
    ∃ path ∈ paths, ∃ relative, path.relativeTo? root = some relative ∧ relative.text = text := by
  simp only [relativeFiles, List.mem_mergeSort, List.mem_filterMap, List.mem_filter] at member
  obtain ⟨path, ⟨among, -⟩, told⟩ := member
  exact ⟨path, among, Option.map_eq_some_iff.mp told⟩

theorem relativeTo?_of_stepsTo {base path : Path} {names : List String} (steps : File.StepsTo base path names) :
    path.relativeTo? base = some ⟨.relative, names⟩ := by
  obtain rfl := steps
  simp [Path.relativeTo?]

def listingClimb (pattern : Option String) (depth : Option Int) : Nat :=
  if depth = some 0 then 0
  else match File.selectors (listingPattern pattern depth) with
    | .ok found => File.Selector.climb found
    | .error _ => 0

theorem exists_names_of_listed {service : Service} {project : Project} {pattern : Option String}
    {depth : Option Int} {endings files : List String} (named : service.store.WellNamed)
    (listed : ((listFiles project pattern depth endings).run service).1 = .ok files) :
    ∃ paths found, files = relativeFiles service.store project.root found paths ∧
      ∀ path ∈ paths, ∃ names, File.StepsTo project.root path names ∧
        (∀ name ∈ names, Path.ProperName name) ∧ Path.climb names ≤ listingClimb pattern depth := by
  by_cases zero : depth = some 0
  · subst zero
    rw [run_listFiles_zero] at listed
    split at listed
    next place children located =>
      cases listed
      refine ⟨_, endings, rfl, ?_⟩
      intro path member
      obtain ⟨⟨name, entry⟩, among, rfl⟩ := List.mem_map.mp member
      have present : (name, entry) ∈ entriesWithin service.store.root :=
        Folder.within_subset_of_find? (Store.find?_of_locate located) (Folder.mem_entriesWithin among)
      obtain ⟨proper, notDots⟩ := named _ present
      refine ⟨[name], File.stepsTo_child project.root name, by simpa using proper, ?_⟩
      simp [Path.climb, notDots]
    next => cases listed
    next => cases listed
  · rw [run_listFiles_of_ne_zero service project pattern zero endings, File.glob] at listed
    cases read : File.selectors (listingPattern pattern depth) with
    | error fault => simp [read] at listed
    | ok found =>
        simp only [read, Outcome.ok_bind, Outcome.pure_eq_ok] at listed
        cases listed
        refine ⟨_, _, rfl, ?_⟩
        intro path member
        split at member
        · rw [listingClimb, if_neg zero, read]
          exact File.exists_names_of_mem_select named (File.plain_of_selectors read) member
        · cases member

/-- Every listed path leads at most as far up from the root as the pattern does.  It ends below the
component of the root up to which it climbs, and so it lies in the root exactly if it comes back by the
components that it has left; all that a pattern lists that does not climb lies in the root. -/
theorem listed_inside_iff_returns (service : Service) (project : Project) (pattern : Option String)
    (depth : Option Int) (endings files : List String) (noDots : ".." ∉ project.root.components)
    (named : service.store.WellNamed)
    (listed : ((listFiles project pattern depth endings).run service).1 = .ok files) :
    ∀ text ∈ files,
      let root := project.root.components
      let names := (Path.ofString text).components
      let landing := Path.withoutDots (project.root.join (.ofString text)).components
      Path.climb names ≤ listingClimb pattern depth ∧
        landing = root.take (root.length - Path.climb names) ++ Path.withoutDots names ∧
        (root <+: landing ↔ root.drop (root.length - Path.climb names) <+: Path.withoutDots names) ∧
        (listingClimb pattern depth = 0 → root <+: landing) := by
  intro text member root names landing
  obtain ⟨paths, found, rfl, reached⟩ := exists_names_of_listed named listed
  obtain ⟨path, among, relative, told, rfl⟩ := exists_relative_of_mem_relativeFiles member
  obtain ⟨steps, leads, proper, low⟩ := reached path among
  cases (relativeTo?_of_stepsTo leads).symm.trans told
  have readBack : Path.ofString (Path.text ⟨.relative, steps⟩) = ⟨.relative, steps⟩ :=
    Path.ofString_text proper
  have names_eq : names = steps := congrArg Path.components readBack
  have landing_eq : landing = root.take (root.length - Path.climb names) ++ Path.withoutDots names := by
    rw [names_eq]
    simp only [landing, readBack, Path.join, if_true]
    exact Path.withoutDots_append noDots steps
  refine ⟨names_eq ▸ low, landing_eq, ?_, ?_⟩
  · rw [landing_eq]
    exact Path.isPrefix_take_append_iff root _ _
  · intro level
    have stays : Path.climb names = 0 := by
      rw [names_eq]
      omega
    rw [landing_eq, stays, Nat.sub_zero, List.take_length]
    exact List.prefix_append root _

def besideRoot : Service :=
  { store := { root := [("p", .directory []), ("s", .file .empty (.finite 0))] } }

theorem listed_outside :
    ((listFiles { name := "p", root := .absolute ["p"] } (some "../*") none []).run besideRoot).1 =
        .ok ["../s"] ∧
      ¬ ["p"] <+: Path.withoutDots ((Path.absolute ["p"]).join (.ofString "../s")).components := by
  have listed : ((listFiles { name := "p", root := .absolute ["p"] } (some "../*") none []).run
      besideRoot).1 = .ok ["../s"] := by
    have globbed : File.glob besideRoot.store (.absolute ["p"]) (listingPattern (some "../*") none) =
        .ok [.absolute ["p", "..", "p"], .absolute ["p", "..", "s"]] := by
      cbv
    have files : [Path.absolute ["p", "..", "p"], .absolute ["p", "..", "s"]].filter
        (fun path => besideRoot.store.isFile path) = [.absolute ["p", "..", "s"]] := by
      cbv
    have told : ((Path.absolute ["p", "..", "s"]).relativeTo? (.absolute ["p"])).map Path.text =
        some "../s" := by
      decide
    rw [run_listFiles_of_ne_zero _ _ _ (by decide), globbed]
    simp [relativeFiles, files, told]
  refine ⟨listed, ?_⟩
  have lands := listed_inside_iff_returns besideRoot { name := "p", root := .absolute ["p"] } (some "../*")
    none [] ["../s"] (by decide) (by decide) listed "../s" (by simp)
  intro inside
  exact absurd (lands.2.2.1.mp inside) (by decide)

end Arborist.Service
