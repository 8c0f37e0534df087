import Mathlib.Data.List.Nodup
import Arborist.Proofs.Data.Enumeration
import Arborist.Proofs.File.Globbing

/-!
All that is below a directory, level by level.  The entries below one are told together with the names that lead
to them; if no directory has two entries of one name, each of them is told once.
-/

namespace Arborist

namespace Path

def down (base : Path) (names : List String) : Path := ⟨base.anchor, base.components ++ names⟩

@[simp] theorem down_nil (base : Path) : base.down [] = base := by simp [down]

@[simp] theorem down_child (base : Path) (name : String) (names : List String) :
    (base.child name).down names = base.down (name :: names) := by
  simp [down, child]

theorem child_eq_down (base : Path) (name : String) : base.child name = base.down [name] := rfl

theorem down_injective (base : Path) : Function.Injective base.down := by
  intro names others same
  exact List.append_cancel_left (congrArg components same)

end Path

mutual

def Entry.descents : Entry → List (List String × Entry)
  | .directory children => descentsIn children
  | _ => []

def descentsIn : List (String × Entry) → List (List String × Entry)
  | [] => []
  | (name, entry) :: rest =>
    ([name], entry) :: entry.descents.map (fun (names, found) => (name :: names, found)) ++ descentsIn rest

end

theorem Entry.descents_eq (entry : Entry) : entry.descents = descentsIn entry.children := by
  cases entry <;> simp [descents, children, descentsIn]

namespace Folder

/-- No two entries of a folder have the same name, nor do those of any directory in it. -/
def Distinct (folder : Folder) : Prop :=
  (folder.map Prod.fst).Nodup ∧ ∀ pair ∈ entriesWithin folder, (pair.2.children.map Prod.fst).Nodup

instance (folder : Folder) : Decidable (Distinct folder) :=
  inferInstanceAs (Decidable ((folder.map Prod.fst).Nodup ∧
    ∀ pair ∈ entriesWithin folder, (pair.2.children.map Prod.fst).Nodup))

theorem Distinct.children {folder : Folder} (distinct : Distinct folder) {name : String} {entry : Entry}
    (member : (name, entry) ∈ folder) : Distinct entry.children := by
  refine ⟨distinct.2 _ (mem_entriesWithin member), ?_⟩
  intro pair inside
  apply distinct.2 pair
  apply within_subset member
  cases entry with
  | directory children => exact inside
  | file content modified => cases inside
  | link target => cases inside

theorem Distinct.tail {first : String × Entry} {rest : Folder} (distinct : Distinct (first :: rest)) :
    Distinct rest := by
  refine ⟨(List.nodup_cons.mp distinct.1).2, ?_⟩
  intro pair inside
  exact distinct.2 pair (by simp [entriesWithin, inside])

theorem Distinct.of_find? {folder children : Folder} {names : List String} (distinct : Distinct folder)
    (found : Folder.find? folder names = some (.directory children)) : Distinct children := by
  fun_induction Folder.find? folder names with
  | case1 folder =>
      cases found
      exact distinct
  | case2 folder name => exact distinct.children (mem_of_get? found)
  | case3 folder name rest _ inner here ih => exact ih (distinct.children (mem_of_get? here)) found
  | case4 => cases found

theorem Distinct.get?_eq_some_iff {folder : Folder} (distinct : Distinct folder) {name : String} {entry : Entry} :
    Folder.get? folder name = some entry ↔ (name, entry) ∈ folder := by
  constructor
  · exact mem_of_get?
  · intro member
    induction folder with
    | nil => cases member
    | cons first rest ih =>
        rcases List.mem_cons.mp member with rfl | later
        · simp [get?]
        · have other : name ≠ first.1 := by
            rintro rfl
            exact (List.nodup_cons.mp distinct.1).1 (List.mem_map.mpr ⟨_, later, rfl⟩)
          have different : (name == first.1) = false := beq_eq_false_iff_ne.mpr other
          rw [get?, List.lookup_cons, different]
          exact ih distinct.tail later

end Folder

theorem mem_descentsIn {names : List String} {found : Entry} {children : List (String × Entry)} :
    (names, found) ∈ descentsIn children ↔
      ∃ name entry, (name, entry) ∈ children ∧
        (names = [name] ∧ found = entry ∨ ∃ inner, names = name :: inner ∧ (inner, found) ∈ entry.descents) := by
  induction children with
  | nil => simp [descentsIn]
  | cons first rest ih =>
      obtain ⟨name, entry⟩ := first
      rw [descentsIn, List.cons_append, List.mem_cons, List.mem_append, ih]
      constructor
      · rintro (same | inside | ⟨other, among, member, told⟩)
        · cases same
          exact ⟨name, found, List.mem_cons_self, .inl ⟨rfl, rfl⟩⟩
        · obtain ⟨⟨inner, below⟩, member, same⟩ := List.mem_map.mp inside
          cases same
          exact ⟨name, entry, List.mem_cons_self, .inr ⟨inner, rfl, member⟩⟩
        · exact ⟨other, among, List.mem_cons_of_mem _ member, told⟩
      · rintro ⟨other, among, member, told⟩
        rcases List.mem_cons.mp member with same | later
        · cases same
          rcases told with ⟨rfl, rfl⟩ | ⟨inner, rfl, inside⟩
          · exact .inl rfl
          · exact .inr (.inl (List.mem_map.mpr ⟨(inner, found), inside, rfl⟩))
        · exact .inr (.inr ⟨other, among, later, told⟩)

theorem ne_nil_of_mem_descents {names : List String} {found entry : Entry} (member : (names, found) ∈ entry.descents) :
    names ≠ [] := by
  rw [Entry.descents_eq, mem_descentsIn] at member
  obtain ⟨name, inner, -, ⟨rfl, -⟩ | ⟨more, rfl, -⟩⟩ := member
  · simp
  · simp

theorem mem_descentsIn_iff_find? {children : Folder} (distinct : Folder.Distinct children)
    {names : List String} {found : Entry} :
    (names, found) ∈ descentsIn children ↔ names ≠ [] ∧ Folder.find? children names = some found := by
  induction names generalizing children with
  | nil => simp [mem_descentsIn]
  | cons name rest ih =>
      cases rest with
      | nil =>
          rw [mem_descentsIn]
          constructor
          · rintro ⟨other, entry, member, ⟨same, rfl⟩ | ⟨inner, same, inside⟩⟩
            · cases same
              exact ⟨by simp, distinct.get?_eq_some_iff.mpr member⟩
            · cases same
              exact absurd rfl (ne_nil_of_mem_descents inside)
          · rintro ⟨-, here⟩
            exact ⟨name, found, distinct.get?_eq_some_iff.mp here, .inl ⟨rfl, rfl⟩⟩
      | cons second more =>
          have onRest : ∀ entry, (name, entry) ∈ children →
              ((second :: more, found) ∈ entry.descents ↔
                Folder.find? entry.children (second :: more) = some found) := by
            intro entry member
            rw [Entry.descents_eq, ih (distinct.children member)]
            simp
          rw [mem_descentsIn]
          constructor
          · rintro ⟨other, entry, member, ⟨same, -⟩ | ⟨inner, same, inside⟩⟩
            · cases same
            · cases same
              have later := (onRest entry member).mp inside
              refine ⟨by simp, ?_⟩
              rw [Folder.find?, distinct.get?_eq_some_iff.mpr member]
              · cases entry with
                | directory inner => exact later
                | file content modified => cases more <;> cases later
                | link target => cases more <;> cases later
              · simp
          · rintro ⟨-, here⟩
            obtain ⟨inner, member, later⟩ := Folder.exists_children_of_find? here
            exact ⟨name, _, member, .inr ⟨_, rfl, (onRest _ member).mpr later⟩⟩

theorem not_mem_descentsIn_of_not_mem {names : List String} {children : Folder} {name : String}
    (absent : name ∉ children.map Prod.fst) :
    name :: names ∉ (descentsIn children).map Prod.fst := by
  intro member
  obtain ⟨⟨told, found⟩, inside, same⟩ := List.mem_map.mp member
  rw [mem_descentsIn] at inside
  obtain ⟨other, entry, among, named⟩ := inside
  have first : other = name := by
    rcases named with ⟨rfl, -⟩ | ⟨inner, rfl, -⟩
    · exact (List.cons.inj same).1
    · exact (List.cons.inj same).1
  exact absent (List.mem_map.mpr ⟨_, among, first⟩)

mutual

theorem nodup_descents : ∀ (entry : Entry), Folder.Distinct entry.children →
    (entry.descents.map Prod.fst).Nodup
  | .file _ _, _ => List.nodup_nil
  | .link _, _ => List.nodup_nil
  | .directory children, distinct => nodup_descentsIn children distinct

theorem nodup_descentsIn : ∀ (children : List (String × Entry)), Folder.Distinct children →
    ((descentsIn children).map Prod.fst).Nodup
  | [], _ => List.nodup_nil
  | (name, entry) :: rest, distinct => by
      have onEntry := nodup_descents entry (distinct.children List.mem_cons_self)
      have onRest := nodup_descentsIn rest distinct.tail
      have fresh : name ∉ rest.map Prod.fst := (List.nodup_cons.mp distinct.1).1
      have inner : (entry.descents.map fun (names, found) => (name :: names, found)).map Prod.fst =
          (entry.descents.map Prod.fst).map (name :: ·) := by
        rw [List.map_map, List.map_map]
        rfl
      rw [descentsIn, List.cons_append, List.map_cons, List.map_append, inner, List.nodup_cons,
        List.mem_append, List.nodup_append]
      refine ⟨?_, ?_, onRest, ?_⟩
      · rintro (inside | later)
        · obtain ⟨names, told, same⟩ := List.mem_map.mp inside
          obtain ⟨⟨_, found⟩, member, rfl⟩ := List.mem_map.mp told
          exact ne_nil_of_mem_descents member (List.cons.inj same).2
        · exact not_mem_descentsIn_of_not_mem fresh later
      · exact onEntry.map fun _ _ same => (List.cons.inj same).2
      · intro names inside others later same
        obtain ⟨more, -, rfl⟩ := List.mem_map.mp inside
        exact not_mem_descentsIn_of_not_mem fresh (same ▸ later)

end

theorem enumerates_descents {children : Folder} (distinct : Folder.Distinct children)
    {keep : List String → Entry → Bool} (notHere : ∀ inner, keep [] (.directory inner) = false) :
    Enumerates (((descentsIn children).filter fun descent => keep descent.1 descent.2).map Prod.fst)
      fun names => ∃ entry, Folder.find? children names = some entry ∧ keep names entry = true where
  nodup := (nodup_descentsIn children distinct).sublist (List.filter_sublist.map _)
  mem_iff names := by
    rw [List.mem_map]
    constructor
    · rintro ⟨⟨told, entry⟩, member, rfl⟩
      obtain ⟨inside, kept⟩ := List.mem_filter.mp member
      exact ⟨entry, ((mem_descentsIn_iff_find? distinct).mp inside).2, kept⟩
    · rintro ⟨entry, found, kept⟩
      have nonempty : names ≠ [] := by
        rintro rfl
        cases found
        rw [notHere] at kept
        cases kept
      exact ⟨(names, entry),
        List.mem_filter.mpr ⟨(mem_descentsIn_iff_find? distinct).mpr ⟨nonempty, found⟩, kept⟩, rfl⟩

theorem Store.leadsTo_iff {store : Store} {base : Path} {place names : List String} {children : Folder}
    {entry : Entry} (located : store.locate base = .ok (place, .directory children)) :
    store.LeadsTo base names entry ↔ Folder.find? children names = some entry := by
  constructor
  · rintro ⟨_, _, alsoLocated, found⟩
    cases located.symm.trans alsoLocated
    exact found
  · exact fun found => ⟨place, children, located, found⟩

namespace Store

variable {store : Store}

theorem exists_directory_of_locate_down {base : Path} {name : String} {rest : List String}
    {found : List String × Entry} (located : store.locate (base.down (name :: rest)) = .ok found) :
    ∃ place children, store.locate base = .ok (place, .directory children) ∧
      (name ≠ ".." → ∃ entry, (name, entry) ∈ children) := by
  have noNull : hasNull base.components = false := by
    have whole := not_hasNull_of_locate located
    simp only [Path.down, hasNull, List.any_append, Bool.or_eq_false_iff] at whole
    exact whole.1
  have follows := followFrom_of_locate located
  rw [Path.down, followFrom_append] at follows
  obtain ⟨place, leads, last⟩ := Outcome.bind_eq_ok_iff.mp follows
  have start : store.startOf ⟨base.anchor, base.components ++ name :: rest⟩ = store.startOf base := rfl
  rw [start] at leads
  rw [followFrom] at last
  split at last
  next => cases last
  next children here =>
    refine ⟨place, children, ?_, ?_⟩
    · unfold locate
      simp only [noNull, Bool.false_eq_true, if_false, leads, here]
    · intro notDots
      rw [if_neg notDots] at last
      split at last
      next => cases last
      next target present => exact ⟨_, Folder.mem_of_get? present⟩
      next entry _ present => exact ⟨_, Folder.mem_of_get? present⟩
  next => cases last

theorem isDirectory_of_locate_down {base : Path} {names : List String} (nonempty : names ≠ [])
    {found : List String × Entry} (located : store.locate (base.down names) = .ok found) :
    store.isDirectory base = true := by
  obtain ⟨name, rest, rfl⟩ := List.exists_cons_of_ne_nil nonempty
  obtain ⟨place, children, here, -⟩ := exists_directory_of_locate_down located
  simp [isDirectory, entry?, here, Entry.isDirectory]

theorem exists_locate_of_isFile {path : Path} (file : store.isFile path = true) :
    ∃ found, store.locate path = .ok found := by
  unfold isFile entry? at file
  cases located : store.locate path with
  | error fault => simp [located] at file
  | ok found => exact ⟨found, rfl⟩

end Store

namespace File

variable {store : Store}

theorem childrenAt_of_locate {base : Path} {place : List String} {children : Folder}
    (located : store.locate base = .ok (place, .directory children)) : childrenAt store base = children := by
  simp [childrenAt, Store.entry?, located, Entry.children]

mutual

theorem directoriesBelow_eq : ∀ (path : Path) (entry : Entry), directoriesBelow path entry =
    (if entry.isDirectory then [path] else []) ++
      (entry.descents.filter fun descent => descent.2.isDirectory).map fun descent => path.down descent.1
  | _, .file _ _ => rfl
  | _, .link _ => rfl
  | path, .directory children => congrArg (path :: ·) (directoriesIn_eq path children)

theorem directoriesIn_eq : ∀ (path : Path) (children : List (String × Entry)), directoriesIn path children =
    ((descentsIn children).filter fun descent => descent.2.isDirectory).map fun descent => path.down descent.1
  | _, [] => rfl
  | path, (name, entry) :: rest => by
      have onEntry := directoriesBelow_eq (path.child name) entry
      have onRest := directoriesIn_eq path rest
      have inner : ((entry.descents.map fun (names, found) => (name :: names, found)).filter
          fun descent => descent.2.isDirectory).map (fun descent => path.down descent.1) =
            (entry.descents.filter fun descent => descent.2.isDirectory).map
              fun descent => (path.child name).down descent.1 := by
        rw [List.filter_map, List.map_map]
        simp only [Path.down_child]
        rfl
      rw [directoriesIn, onEntry, onRest, descentsIn, List.cons_append, List.filter_cons]
      cases entry.isDirectory with
      | true => simp [inner, Path.child_eq_down]
      | false => simp [inner]

end

theorem mem_directoriesBelow_iff {path start : Path} {children : Folder} (distinct : Folder.Distinct children) :
    start ∈ directoriesBelow path (.directory children) ↔
      ∃ names inner, Folder.find? children names = some (.directory inner) ∧ start = path.down names := by
  constructor
  · intro member
    rw [directoriesBelow_eq, List.mem_append] at member
    rcases member with here | below
    · obtain rfl : start = path := by simpa [Entry.isDirectory] using here
      exact ⟨[], children, rfl, (Path.down_nil start).symm⟩
    · obtain ⟨⟨names, entry⟩, inside, rfl⟩ := List.mem_map.mp below
      obtain ⟨told, directory⟩ := List.mem_filter.mp inside
      have found := ((mem_descentsIn_iff_find? distinct).mp told).2
      cases entry with
      | directory inner => exact ⟨names, inner, found, rfl⟩
      | file content modified => cases directory
      | link target => cases directory
  · rintro ⟨names, inner, found, rfl⟩
    exact mem_directoriesBelow found

theorem mem_pathsBelow_iff {base path : Path} (distinct : Folder.Distinct store.root) (named : store.WellNamed)
    (nullFree : store.NullFree) :
    path ∈ pathsBelow store base ↔
      ∃ names entry, names ≠ [] ∧ store.LeadsTo base names entry ∧ path = base.down names := by
  constructor
  · intro member
    unfold pathsBelow at member
    cases located : store.locate base with
    | error fault => simp [located, Store.entry?] at member
    | ok found =>
        obtain ⟨place, entry⟩ := found
        simp only [located, Store.entry?, List.mem_eraseDups, List.mem_flatMap, List.mem_map] at member
        obtain ⟨start, among, ⟨name, child⟩, inside, rfl⟩ := member
        cases entry with
        | file content modified => cases among
        | link target => cases among
        | directory children =>
            have distinctHere := distinct.of_find? (Store.find?_of_locate located)
            obtain ⟨names, inner, leads, rfl⟩ := (mem_directoriesBelow_iff distinctHere).mp among
            obtain ⟨reached, startLocated⟩ :
                ∃ reached, store.locate (base.down names) = .ok (reached, .directory inner) :=
              Store.LeadsTo.locate ⟨place, children, located, leads⟩ named nullFree rfl
            rw [childrenAt_of_locate startLocated] at inside
            have next := Folder.find?_concat_of_directory name leads
            refine ⟨names ++ [name], child, by simp, ⟨place, children, located, ?_⟩, ?_⟩
            · rw [next]
              exact (distinctHere.of_find? leads).get?_eq_some_iff.mpr inside
            · simp [Path.down, Path.child]
  · rintro ⟨names, entry, nonempty, leads, rfl⟩
    exact mem_pathsBelow named nullFree leads nonempty

theorem nodup_pathsBelow (store : Store) (base : Path) : (pathsBelow store base).Nodup := by
  unfold pathsBelow
  split
  · exact Grouping.nodup_eraseDups _
  · exact List.nodup_nil

/-! Going down a number of levels, through links as well. -/

theorem select_star_cons (rest : List Selector) (base : Path) :
    select store (.fitting "*" :: rest) base = (childrenAt store base).flatMap fun child =>
      if rest.isEmpty || store.isDirectory (base.child child.1) then select store rest (base.child child.1)
      else [] := by
  rw [select]
  simp only [nameFits_star, Bool.true_and]

theorem mem_select_stars_iff (named : store.WellNamed) {depth : Nat} {base path : Path}
    (file : store.isFile path = true) :
    path ∈ select store (List.replicate (depth + 1) (.fitting "*")) base ↔
      ∃ names, names.length = depth + 1 ∧ ".." ∉ names ∧ path = base.down names := by
  obtain ⟨found, located⟩ := Store.exists_locate_of_isFile file
  induction depth generalizing base with
  | zero =>
      rw [List.replicate_one, select_star_cons, List.mem_flatMap]
      constructor
      · rintro ⟨⟨name, entry⟩, member, reached⟩
        have notDots := (named _ (exists_child_of_mem_childrenAt member)).2
        have there : path = base.child name := by simpa [select] using reached
        exact ⟨[name], rfl, by simpa using Ne.symm notDots, there⟩
      · rintro ⟨names, single, noDots, rfl⟩
        obtain ⟨name, rfl⟩ := List.length_eq_one_iff.mp single
        obtain ⟨place, children, here, present⟩ := Store.exists_directory_of_locate_down located
        obtain ⟨entry, member⟩ := present (by simpa using Ne.symm (List.ne_of_not_mem_cons noDots))
        exact ⟨(name, entry), childrenAt_of_locate here ▸ member, by simp [select, Path.child_eq_down]⟩
  | succ depth ih =>
      rw [List.replicate_succ, select_star_cons, List.mem_flatMap]
      constructor
      · rintro ⟨⟨name, entry⟩, member, reached⟩
        have notDots := (named _ (exists_child_of_mem_childrenAt member)).2
        obtain ⟨names, long, noDots, rfl⟩ := ih.mp (List.mem_ite_nil_right.mp reached).2
        refine ⟨name :: names, by simp [long], ?_, by rw [Path.down_child]⟩
        simpa [noDots] using Ne.symm notDots
      · rintro ⟨names, long, noDots, rfl⟩
        obtain ⟨name, rest, rfl⟩ := List.exists_cons_of_length_eq_add_one long
        have restLong : rest.length = depth + 1 := by simpa using long
        have restNonempty : rest ≠ [] := by
          rintro rfl
          cases restLong
        obtain ⟨place, children, here, present⟩ := Store.exists_directory_of_locate_down located
        obtain ⟨entry, member⟩ := present (List.ne_of_not_mem_cons noDots).symm
        have below : store.locate ((base.child name).down rest) = .ok found := by
          rw [Path.down_child]
          exact located
        have directory := Store.isDirectory_of_locate_down restNonempty below
        refine ⟨(name, entry), childrenAt_of_locate here ▸ member, ?_⟩
        rw [if_pos (by simp [directory])]
        exact ih.mpr ⟨rest, restLong, List.not_mem_of_not_mem_cons noDots, (Path.down_child base name rest).symm⟩

theorem nodup_names_childrenAt (distinct : Folder.Distinct store.root) (base : Path) :
    ((childrenAt store base).map Prod.fst).Nodup := by
  unfold childrenAt Store.entry?
  cases located : store.locate base with
  | error fault => exact List.nodup_nil
  | ok found =>
      obtain ⟨place, entry⟩ := found
      cases entry with
      | directory children => exact (distinct.of_find? (Store.find?_of_locate located)).1
      | file content modified => exact List.nodup_nil
      | link target => exact List.nodup_nil

theorem nodup_select_stars (distinct : Folder.Distinct store.root) (named : store.WellNamed) (depth : Nat)
    (base : Path) : (select store (List.replicate depth (.fitting "*")) base).Nodup := by
  induction depth generalizing base with
  | zero => exact List.nodup_singleton base
  | succ depth ih =>
      rw [List.replicate_succ, select_star_cons, List.nodup_flatMap]
      constructor
      · intro child _
        split
        · exact ih (base.child child.1)
        · exact List.nodup_nil
      · have apart := List.pairwise_map.mp (nodup_names_childrenAt distinct base)
        apply apart.imp
        intro child other different path inChild inOther
        have plain : ∀ selector ∈ List.replicate depth (Selector.fitting "*"), selector.Plain := by
          intro selector among
          rw [List.eq_of_mem_replicate among]
          trivial
        obtain ⟨names, rfl, -⟩ := exists_names_of_mem_select named plain (List.mem_ite_nil_right.mp inChild).2
        obtain ⟨others, same, -⟩ := exists_names_of_mem_select named plain (List.mem_ite_nil_right.mp inOther).2
        have components := congrArg Path.components same
        simp only [Path.child, List.append_assoc, List.append_cancel_left_eq, List.singleton_append,
          List.cons.injEq] at components
        exact different components.1

/-! The patterns that ask for everything, and for what is a number of levels down. -/

theorem glob_everything (store : Store) (base : Path) :
    glob store base "**/*" = .ok (pathsBelow store base) := by
  have read : selectors "**/*" = .ok [.anyDepth, .fitting "*"] :=
    selectors_of_components "**" "*" (by decide) (by decide) (by decide) rfl rfl
  simp only [glob, read, Outcome.ok_bind, Outcome.pure_eq_ok]
  rw [select_below, List.filter_eq_self.mpr fun path _ => nameFits_star path.name]

theorem componentsOf_star (text : String) :
    Path.componentsOf ("*/" ++ text) = "*" :: Path.componentsOf text := by
  simp [Path.componentsOf, Text.splitWhere_cons]

theorem componentsOf_stars (depth : Nat) :
    Path.componentsOf (String.join (List.replicate depth "*/") ++ "/*") = List.replicate (depth + 1) "*" := by
  induction depth with
  | zero => decide
  | succ depth ih =>
      rw [List.replicate_succ, String.join_cons, String.append_assoc, componentsOf_star, ih]
      rfl

theorem selectors_stars (depth : Nat) :
    selectors (String.join (List.replicate (depth + 1) "*/") ++ "/*") =
      .ok (List.replicate (depth + 2) (.fitting "*")) := by
  have letters : (String.join (List.replicate (depth + 1) "*/") ++ "/*").toList =
      '*' :: '/' :: (String.join (List.replicate depth "*/")).toList ++ ['/', '*'] := by
    rw [List.replicate_succ, String.join_cons]
    simp
  have nonempty : (String.join (List.replicate (depth + 1) "*/") ++ "/*").isEmpty = false := by
    rw [← Bool.not_eq_true, String.isEmpty_iff, ← String.toList_eq_nil_iff, letters]
    simp
  have parsed : Path.ofString (String.join (List.replicate (depth + 1) "*/") ++ "/*") =
      ⟨.relative, List.replicate (depth + 2) "*"⟩ := by
    rw [Path.ofString, componentsOf_stars, letters]
    rfl
  have read : (List.replicate (depth + 2) "*").mapM Selector.ofComponent =
      .ok (List.replicate (depth + 2) (.fitting "*")) := by
    have onEach : ∀ component ∈ List.replicate (depth + 2) "*",
        Selector.ofComponent component = .ok (.fitting "*") := by
      intro component among
      rw [List.eq_of_mem_replicate among]
      rfl
    rw [Outcome.mapM_eq_ok_map onEach, List.map_const', List.length_replicate]
  unfold selectors
  simp [nonempty, parsed, read]

theorem glob_stars (store : Store) (base : Path) (depth : Nat) :
    glob store base (String.join (List.replicate (depth + 1) "*/") ++ "/*") =
      .ok (if store.isDirectory base then select store (List.replicate (depth + 2) (.fitting "*")) base else []) := by
  rw [glob, selectors_stars]
  rfl

end File

end Arborist
