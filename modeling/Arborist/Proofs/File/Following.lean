import Arborist.Proofs.File.Blank
import Arborist.Proofs.File.Contents

/-!
Resolving a path and following it lead to the same place.  Resolving also goes on where nothing exists
and does not ask for directories; but where a path leads to an entry, both enter the same links.
-/

namespace Arborist

theorem Folder.exists_directory_of_find?_append {folder : Folder} {names rest : List String} {entry : Entry}
    (nonempty : rest ≠ []) (found : Folder.find? folder (names ++ rest) = some entry) :
    ∃ children, Folder.find? folder names = some (.directory children) ∧
      Folder.find? children rest = some entry := by
  induction names generalizing folder with
  | nil => exact ⟨folder, rfl, found⟩
  | cons first others ih =>
      have more := List.append_ne_nil_of_right_ne_nil others nonempty
      obtain ⟨next, later, parts⟩ := List.exists_cons_of_ne_nil more
      rw [List.cons_append, parts] at found
      simp only [find?] at found
      split at found
      next inner here =>
        rw [← parts] at found
        obtain ⟨children, above, below⟩ := ih found
        refine ⟨children, ?_, below⟩
        cases others with
        | nil =>
            cases above
            exact here
        | cons second more =>
            simp only [find?, here]
            exact above
      next => cases found

theorem Folder.exists_entry_of_mem_names {folder : Folder} {names : List String} {entry : Entry}
    (found : Folder.find? folder names = some entry) {name : String} (member : name ∈ names) :
    ∃ other, (name, other) ∈ entriesWithin folder := by
  fun_induction Folder.find? folder names with
  | case1 => cases member
  | case2 folder first =>
      obtain rfl := List.mem_singleton.mp member
      exact ⟨entry, mem_entriesWithin (mem_of_get? found)⟩
  | case3 folder first rest _ children inside ih =>
      rcases List.mem_cons.mp member with rfl | later
      · exact ⟨.directory children, mem_entriesWithin (mem_of_get? inside)⟩
      · obtain ⟨other, present⟩ := ih found later
        exact ⟨other, within_subset (mem_of_get? inside) present⟩
  | case4 => cases found

namespace Store

def NullFree (store : Store) : Prop := ∀ pair ∈ entriesWithin store.root, hasNull [pair.1] = false

instance (store : Store) : Decidable store.NullFree :=
  inferInstanceAs (Decidable (∀ pair ∈ entriesWithin store.root, hasNull [pair.1] = false))

variable {store : Store}

theorem NullFree.not_hasNull (nullFree : store.NullFree) {names : List String} {entry : Entry}
    (found : store.find? names = some entry) : hasNull names = false := by
  unfold hasNull
  rw [List.any_eq_false]
  intro name member
  obtain ⟨other, present⟩ := Folder.exists_entry_of_mem_names found member
  simpa [hasNull] using nullFree _ present

theorem resolveFrom_of_not_link {depth : Nat} {entered : List (List String)} {current others : List String}
    {name : String} (notDots : name ≠ "..")
    (notLink : ∀ target, store.find? (current ++ [name]) ≠ some (.link target)) :
    store.resolveFrom depth entered current (name :: others) =
      store.resolveFrom depth entered (current ++ [name]) others := by
  rw [resolveFrom]
  simp only [notDots, if_false]

theorem eq_of_resolveFrom_of_followFrom {depth limit : Nat} {entered : List (List String)}
    {current rest reached place : List String}
    (follows : store.followFrom limit current rest = .ok reached)
    (resolved : store.resolveFrom depth entered current rest = .ok place) : place = reached := by
  fun_induction store.followFrom limit current rest generalizing depth entered place reached with
  | case1 limit current =>
      rw [resolveFrom] at resolved
      cases follows
      cases resolved
      rfl
  | case2 => cases follows
  | case3 limit current others children found ih =>
      rw [resolveFrom, if_pos rfl] at resolved
      exact ih follows resolved
  | case4 => cases follows
  | case5 => cases follows
  | case6 current name others children found notDots target link limit path start inner leads =>
      rename_i ihTarget ihRest
      have linked := (Folder.find?_concat_of_directory name found).trans link
      rw [resolveFrom_link notDots linked] at resolved
      cases depth with
      | zero => cases resolved
      | succ depth =>
          dsimp only at resolved
          split at resolved
          · cases resolved
          · split at resolved
            next middle enters =>
              obtain rfl := ihTarget leads enters
              exact ihRest follows resolved
            next => cases resolved
  | case7 => cases follows
  | case8 limit current name others children found notDots entry notLink present ih =>
      have stands := (Folder.find?_concat_of_directory name found).trans present
      have goesOn : ∀ target, store.find? (current ++ [name]) ≠ some (.link target) := by
        intro target linked
        exact notLink target (Option.some.inj (stands.symm.trans linked))
      rw [resolveFrom_of_not_link notDots goesOn] at resolved
      exact ih follows resolved
  | case9 => cases follows

theorem followFrom_of_settled {limit : Nat} {current rest : List String} {entry : Entry}
    (settled : store.Settled (current ++ rest)) (found : store.find? (current ++ rest) = some entry) :
    store.followFrom limit current rest = .ok (current ++ rest) := by
  induction rest generalizing current with
  | nil => simp [followFrom]
  | cons name others ih =>
      obtain ⟨notDots, notLink⟩ := settled current name (by simp)
      obtain ⟨children, above, below⟩ := Folder.exists_directory_of_find?_append (List.cons_ne_nil _ _) found
      have here : store.find? current = some (.directory children) := above
      have next : store.find? (current ++ [name]) = Folder.get? children name :=
        Folder.find?_concat_of_directory name here
      have onOthers := @ih (current ++ [name]) (by simpa using settled) (by simpa using found)
      rw [followFrom, here]
      simp only [notDots, if_false]
      cases present : Folder.get? children name with
      | none =>
          exfalso
          cases others with
          | nil => simp [Folder.find?, present] at below
          | cons second more => simp [Folder.find?, present] at below
      | some child =>
          cases child with
          | link target => exact absurd (next.trans present) (notLink target)
          | file content modified => simpa using onOthers
          | directory inner => simpa using onOthers

theorem followFrom_of_locate {path : Path} {reached : List String} {entry : Entry}
    (located : store.locate path = .ok (reached, entry)) :
    store.followFrom (folderLinkCount store.root) (store.startOf path) path.components = .ok reached := by
  unfold locate at located
  split at located
  · cases located
  · split at located
    · cases located
    next place follows =>
      split at located
      · cases located
        exact follows
      · cases located

theorem locate_of_settled {names : List String} {entry : Entry} (settled : store.Settled names)
    (noNull : hasNull names = false) (found : store.find? names = some entry) :
    store.locate (.absolute names) = .ok (names, entry) := by
  have follows : store.followFrom (folderLinkCount store.root) [] names = .ok names :=
    followFrom_of_settled settled found
  have starts : store.startOf (.absolute names) = [] := rfl
  unfold locate
  rw [starts]
  simp only [Path.absolute, noNull, Bool.false_eq_true, if_false, follows, found]

/-- Where a path leads to an entry, the path that it resolves to leads to the same entry. -/
theorem locate_resolved {path place : Path} {reached : List String} {entry : Entry}
    (nullFree : store.NullFree) (fromRoot : path.anchor ≠ .relative)
    (resolved : store.resolve path = .ok place) (located : store.locate path = .ok (reached, entry)) :
    store.locate place = .ok (reached, entry) := by
  have settled := resolve_settled resolved fromRoot
  obtain ⟨names, rfl, -, reaches⟩ := resolve_eq_ok_iff.mp resolved
  obtain rfl := eq_of_resolveFrom_of_followFrom (followFrom_of_locate located) reaches
  have found := find?_of_locate located
  exact locate_of_settled settled (nullFree.not_hasNull found) found

end Store

end Arborist
