import Mathlib.Data.List.Infix
import Arborist.File.Glob
import Arborist.Proofs.File.Contents
import Arborist.Proofs.Outcome

/-!
How far up a path leads.  Double dots go up and names go down; what is left of a directory behind which
a path is written are its components up to where the path turns.  The paths that fit a pattern lead no
further up than the pattern does.
-/

namespace Arborist

namespace Path

/-- How many levels above its start a path leads. -/
def climb : List String → Nat
  | [] => 0
  | name :: rest => if name = ".." then climb rest + 1 else climb rest - 1

theorem climb_append_of_not_mem {names : List String} (noDots : ".." ∉ names) (rest : List String) :
    climb (names ++ rest) = climb rest - names.length := by
  induction names with
  | nil => simp
  | cons name others ih =>
      have notDots : name ≠ ".." := fun same => noDots (by simp [same])
      have onOthers := ih fun member => noDots (List.mem_cons_of_mem name member)
      simp only [List.cons_append, climb, notDots, if_false, onOthers, List.length_cons]
      omega

theorem foldl_dots_eq (names kept : List String) :
    names.foldl (fun kept name => if name = ".." then kept.drop 1 else name :: kept) kept =
      names.foldl (fun kept name => if name = ".." then kept.drop 1 else name :: kept) [] ++
        kept.drop (climb names) := by
  induction names generalizing kept with
  | nil => simp [climb]
  | cons name rest ih =>
      by_cases dots : name = ".."
      · simp only [List.foldl_cons, dots, if_true, List.drop_nil, climb]
        rw [ih, List.drop_drop, Nat.add_comm]
      · simp only [List.foldl_cons, dots, if_false, climb]
        rw [ih (name :: kept), ih [name]]
        cases climb rest with
        | zero => simp
        | succ above => simp

theorem withoutDots_of_not_mem {names : List String} (noDots : ".." ∉ names) :
    withoutDots names = names := by
  have reversed : ∀ kept, names.foldl
      (fun kept name => if name = ".." then kept.drop 1 else name :: kept) kept = names.reverse ++ kept := by
    induction names with
    | nil => simp
    | cons name rest ih =>
        intro kept
        have notDots : name ≠ ".." := fun same => noDots (by simp [same])
        have onRest := ih (fun member => noDots (List.mem_cons_of_mem name member)) (name :: kept)
        simp only [List.foldl_cons, notDots, if_false, onRest]
        simp
  rw [withoutDots, reversed]
  simp

theorem withoutDots_append {base : List String} (noDots : ".." ∉ base) (names : List String) :
    withoutDots (base ++ names) = base.take (base.length - climb names) ++ withoutDots names := by
  have onBase := congrArg List.reverse (withoutDots_of_not_mem noDots)
  simp only [withoutDots, List.reverse_reverse] at onBase
  simp only [withoutDots, List.foldl_append, onBase]
  rw [foldl_dots_eq, List.reverse_append, List.drop_reverse, List.reverse_reverse]

theorem isPrefix_take_append_iff (base rest : List String) (count : Nat) :
    base <+: base.take count ++ rest ↔ base.drop count <+: rest := by
  calc base <+: base.take count ++ rest
      ↔ base.take count ++ base.drop count <+: base.take count ++ rest := by rw [List.take_append_drop]
    _ ↔ base.drop count <+: rest := List.prefix_append_right_inj _

end Path

namespace File

/-- How many levels above its start a list of selectors leads. -/
def Selector.climb : List Selector → Nat
  | [] => 0
  | .here :: _ => 0
  | .up :: rest => climb rest + 1
  | .anyDepth :: rest => climb rest
  | .exactly _ :: rest => climb rest - 1
  | .fitting _ :: rest => climb rest - 1

def StepsTo (base path : Path) (names : List String) : Prop :=
  path = ⟨base.anchor, base.components ++ names⟩

mutual

theorem exists_names_of_directoriesBelow {path start : Path} : ∀ {entry : Entry},
    start ∈ directoriesBelow path entry →
      ∃ names, StepsTo path start names ∧ ∀ name ∈ names, ∃ other, (name, other) ∈ entry.within
  | .file _ _, member => absurd member List.not_mem_nil
  | .link _, member => absurd member List.not_mem_nil
  | .directory children, member => by
      rcases List.mem_cons.mp member with rfl | below
      · exact ⟨[], by simp [StepsTo], by simp⟩
      · exact exists_names_of_directoriesIn below

theorem exists_names_of_directoriesIn {path start : Path} : ∀ {children : List (String × Entry)},
    start ∈ directoriesIn path children →
      ∃ names, StepsTo path start names ∧ ∀ name ∈ names, ∃ other, (name, other) ∈ entriesWithin children
  | [], member => absurd member List.not_mem_nil
  | (name, entry) :: rest, member => by
      rcases List.mem_append.mp member with below | later
      · obtain ⟨names, steps, within⟩ := exists_names_of_directoriesBelow below
        refine ⟨name :: names, ?_, ?_⟩
        · simpa [StepsTo, Path.child] using steps
        · intro other among
          rcases List.mem_cons.mp among with rfl | inner
          · exact ⟨entry, by simp [entriesWithin]⟩
          · obtain ⟨found, present⟩ := within other inner
            exact ⟨found, by simp [entriesWithin, present]⟩
      · obtain ⟨names, steps, within⟩ := exists_names_of_directoriesIn later
        refine ⟨names, steps, ?_⟩
        intro other among
        obtain ⟨found, present⟩ := within other among
        exact ⟨found, by simp [entriesWithin, present]⟩

end

theorem StepsTo.trans {base middle path : Path} {names others : List String}
    (first : StepsTo base middle names) (second : StepsTo middle path others) :
    StepsTo base path (names ++ others) := by
  obtain rfl := first
  obtain rfl := second
  simp [StepsTo]

theorem stepsTo_child (base : Path) (name : String) : StepsTo base (base.child name) [name] := rfl

def Selector.Plain : Selector → Prop
  | .exactly name => Path.ProperName name ∧ name ≠ ".."
  | _ => True

theorem exists_child_of_mem_childrenAt {store : Store} {path : Path} {name : String} {entry : Entry}
    (member : (name, entry) ∈ childrenAt store path) : (name, entry) ∈ entriesWithin store.root := by
  unfold childrenAt at member
  cases here : store.entry? path with
  | none => simp [here] at member
  | some found =>
      rw [here] at member
      cases found with
      | directory children =>
          exact Store.within_subset_of_entry? here (Folder.mem_entriesWithin member)
      | file => cases member
      | link => cases member

/-- What selectors reach from a base is reached by names, and no further up than they lead. -/
theorem exists_names_of_mem_select {store : Store} (named : store.WellNamed) {found : List Selector}
    (plain : ∀ selector ∈ found, selector.Plain) {base path : Path} (member : path ∈ select store found base) :
    ∃ names, StepsTo base path names ∧ (∀ name ∈ names, Path.ProperName name) ∧
      Path.climb names ≤ Selector.climb found := by
  induction found generalizing base with
  | nil =>
      obtain rfl := List.mem_singleton.mp member
      exact ⟨[], by simp [StepsTo], by simp, Nat.zero_le _⟩
  | cons selector rest ih =>
      have plainRest : ∀ selector ∈ rest, selector.Plain :=
        fun other among => plain other (List.mem_cons_of_mem selector among)
      -- one name, and then on from the child
      have below : ∀ {name}, Path.ProperName name → name ≠ ".." →
          path ∈ select store rest (base.child name) →
          ∃ names, StepsTo base path names ∧ (∀ name ∈ names, Path.ProperName name) ∧
            Path.climb names ≤ Selector.climb rest - 1 := by
        intro name proper notDots reached
        obtain ⟨names, steps, properNames, low⟩ := ih plainRest reached
        refine ⟨name :: names, (stepsTo_child base name).trans steps, ?_, ?_⟩
        · simpa [proper] using properNames
        · simp only [Path.climb, notDots, if_false]
          omega
      cases selector with
      | here =>
          obtain rfl := List.mem_singleton.mp member
          exact ⟨[], by simp [StepsTo], by simp, Nat.zero_le _⟩
      | up =>
          obtain ⟨names, steps, properNames, low⟩ := ih plainRest member
          refine ⟨".." :: names, (stepsTo_child base "..").trans steps, ?_, ?_⟩
          · have proper : Path.ProperName ".." := by decide
            simpa [proper] using properNames
          · simpa [Path.climb, Selector.climb] using low
      | exactly name =>
          have ⟨proper, notDots⟩ := plain (.exactly name) List.mem_cons_self
          simp only [select, List.mem_ite_nil_right] at member
          exact below proper notDots member.2
      | fitting pattern =>
          simp only [select, List.mem_flatMap] at member
          obtain ⟨⟨name, entry⟩, among, reached⟩ := member
          obtain ⟨proper, notDots⟩ := named _ (exists_child_of_mem_childrenAt among)
          exact below proper notDots (List.mem_ite_nil_right.mp reached).2
      | anyDepth =>
          simp only [select] at member
          cases here : store.entry? base with
          | none => simp [here] at member
          | some entry =>
              simp only [here, List.mem_eraseDups, List.mem_flatMap] at member
              obtain ⟨start, among, reached⟩ := member
              obtain ⟨down, first, within⟩ := exists_names_of_directoriesBelow among
              obtain ⟨names, second, properNames, low⟩ := ih plainRest reached
              have wellNamed : ∀ name ∈ down, Path.ProperName name ∧ name ≠ ".." := by
                intro name inDown
                obtain ⟨other, present⟩ := within name inDown
                exact named _ (Store.within_subset_of_entry? here present)
              refine ⟨down ++ names, first.trans second, ?_, ?_⟩
              · intro name inBoth
                rcases List.mem_append.mp inBoth with inDown | inNames
                · exact (wellNamed name inDown).1
                · exact properNames name inNames
              · have noDots : ".." ∉ down := fun dots => (wellNamed ".." dots).2 rfl
                rw [Path.climb_append_of_not_mem noDots, Selector.climb]
                omega

theorem plain_of_ofComponent {component : String} (proper : Path.ProperName component) {selector : Selector}
    (read : Selector.ofComponent component = .ok selector) : selector.Plain := by
  unfold Selector.ofComponent at read
  split at read
  · cases read
    trivial
  · split at read
    · cases read
      trivial
    next notDots =>
      split at read
      · cases read
      · split at read
        · cases read
          trivial
        · cases read
          exact ⟨proper, notDots⟩

theorem plain_of_selectors {pattern : String} {found : List Selector} (read : selectors pattern = .ok found) :
    ∀ selector ∈ found, selector.Plain := by
  have plain : ∀ {inner}, (Path.ofString pattern).components.mapM Selector.ofComponent = .ok inner →
      ∀ selector ∈ inner, selector.Plain := by
    intro inner done selector member
    obtain ⟨component, among, gives⟩ := Outcome.exists_of_mem_mapM done member
    exact plain_of_ofComponent (Path.ofString_proper pattern component among) gives
  unfold selectors at read
  split at read
  · cases read
  simp only [Outcome.pure_eq_ok] at read
  split at read
  · cases read
  obtain ⟨inner, done, rest⟩ := Outcome.bind_eq_ok_iff.mp read
  split at rest
  · cases rest
  cases rest
  intro selector member
  split at member
  · rcases List.mem_append.mp member with inInner | last
    · exact plain done selector inInner
    · rw [List.mem_singleton.mp last]
      trivial
  · exact plain done selector member

end File

end Arborist
