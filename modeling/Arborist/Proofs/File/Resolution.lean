import Arborist.File.Resolve
import Arborist.Proofs.File.PathText

/-!
What resolving gives.  No link and no double dot is left on the way to a resolved path, its
components are names, and resolving it once more changes nothing.
-/

namespace Arborist.Store

variable {store : Store} {path place : Path} {current rest reached : List String} {depth : Nat}
  {entered : List (List String)}

/-- No component is a double dot, and no directory on the way and not the end is a link. -/
def Settled (store : Store) (components : List String) : Prop :=
  ∀ above name, above ++ [name] <+: components →
    name ≠ ".." ∧ ∀ target, store.find? (above ++ [name]) ≠ some (.link target)

theorem settled_nil (store : Store) : store.Settled [] := by
  intro above name starts
  simp at starts

theorem Settled.of_isPrefix {components known : List String} (settled : store.Settled components)
    (starts : known <+: components) : store.Settled known :=
  fun above name inner => settled above name (inner.trans starts)

theorem Settled.concat {components : List String} {name : String} (settled : store.Settled components)
    (notDots : name ≠ "..") (notLink : ∀ target, store.find? (components ++ [name]) ≠ some (.link target)) :
    store.Settled (components ++ [name]) := by
  intro above last starts
  rcases List.prefix_concat_iff.mp starts with equal | inner
  · obtain ⟨rfl, sameName⟩ := List.append_inj' equal rfl
    cases sameName
    exact ⟨notDots, notLink⟩
  · exact settled above last inner

theorem settled_of_no_links {components : List String} (noDots : ".." ∉ components)
    (noLinks : ∀ count < components.length + 1, (store.find? (components.take count)).any Entry.isLink = false) :
    store.Settled components := by
  intro above name starts
  constructor
  · intro same
    subst same
    exact noDots (starts.subset (by simp))
  · intro target linked
    have notLink := noLinks (above ++ [name]).length (Nat.lt_succ_of_le starts.length_le)
    rw [← List.prefix_iff_eq_take.mp starts, linked] at notLink
    cases notLink

/-- What holds of the directory at which resolving starts holds of the place it reaches, if going up
keeps it and going down by an allowed name that is no link keeps it.  Names of the targets of the store's
links are allowed. -/
theorem resolveFrom_invariant {allowed : String → Prop} {holds : List String → Prop} (atRoot : holds [])
    (goesUp : ∀ components, holds components → holds components.dropLast)
    (goesDown : ∀ components name, holds components → allowed name → name ≠ ".." →
      (∀ target, store.find? (components ++ [name]) ≠ some (.link target)) →
      holds (components ++ [name]))
    (targetsAllowed : ∀ place target, store.find? place = some (.link target) →
      ∀ name ∈ (Path.ofString target).components, allowed name)
    (resolved : store.resolveFrom depth entered current rest = .ok reached) (start : holds current)
    (restAllowed : ∀ name ∈ rest, allowed name) : holds reached := by
  fun_induction store.resolveFrom depth entered current rest generalizing reached with
  | case1 =>
      cases resolved
      exact start
  | case2 depth entered current others ih =>
      exact ih resolved (goesUp current start) fun name member => restAllowed name (by simp [member])
  | case3 => cases resolved
  | case4 => cases resolved
  | case5 entered current name others notDots next target link depth fresh path start' place inner
      ihTarget =>
      rename_i ihRest
      have startHolds : holds start' := by
        by_cases relative : path.anchor = .relative
        · simpa [start', relative] using start
        · simpa [start', relative] using atRoot
      exact ihRest resolved (ihTarget inner startHolds (targetsAllowed next target link))
        fun other member => restAllowed other (by simp [member])
  | case6 => cases resolved
  | case7 depth entered current name others notDots next notLink =>
      rename_i ih
      have nextHolds : holds next :=
        goesDown current name start (restAllowed name (by simp)) notDots notLink
      exact ih resolved nextHolds fun other member => restAllowed other (by simp [member])

theorem resolveFrom_settled (resolved : store.resolveFrom depth entered current rest = .ok reached)
    (settled : store.Settled current) : store.Settled reached := by
  apply resolveFrom_invariant (settled_nil store) _ _ (fun _ _ _ _ _ => trivial) resolved settled
    (fun _ _ => trivial)
  · intro components known
    exact known.of_isPrefix (List.dropLast_prefix components)
  · intro components name known _ notDots notLink
    exact known.concat notDots notLink

theorem resolveFrom_proper (resolved : store.resolveFrom depth entered current rest = .ok reached)
    (currentProper : ∀ name ∈ current, Path.ProperName name) (restProper : ∀ name ∈ rest, Path.ProperName name) :
    ∀ name ∈ reached, Path.ProperName name := by
  apply resolveFrom_invariant _ _ _ (fun _ target _ => Path.ofString_proper target) resolved currentProper
    restProper
  · simp
  · intro components known name member
    exact known name (List.dropLast_subset components member)
  · intro components name known nameProper _ _ other member
    rcases List.mem_append.mp member with inside | last
    · exact known other inside
    · rw [List.mem_singleton.mp last]
      exact nameProper

theorem resolveFrom_of_settled (depth : Nat) (entered : List (List String)) (current rest : List String)
    (settled : store.Settled (current ++ rest)) :
    store.resolveFrom depth entered current rest = .ok (current ++ rest) := by
  induction rest generalizing current with
  | nil => simp [resolveFrom]
  | cons name others ih =>
      obtain ⟨notDots, notLink⟩ := settled current name (by simp)
      have onOthers := ih (current ++ [name]) (by simpa using settled)
      rw [resolveFrom]
      simpa [notDots, notLink] using onOthers

/-! Whole paths. -/

theorem resolve_eq_ok_iff :
    store.resolve path = .ok place ↔
      ∃ reached, place = Path.absolute reached ∧ hasNull path.components = false ∧
        store.resolveFrom (folderLinkCount store.root) [] (store.startOf path) path.components =
          .ok reached := by
  unfold resolve resolveComponents
  by_cases null : hasNull path.components
  · rw [if_pos null]
    constructor
    · intro resolved
      cases resolved
    · rintro ⟨_, -, notNull, -⟩
      rw [null] at notNull
      cases notNull
  · rw [if_neg null]
    cases store.resolveFrom (folderLinkCount store.root) [] (store.startOf path) path.components with
    | ok reached =>
        constructor
        · intro resolved
          cases resolved
          exact ⟨reached, rfl, by simpa using null, rfl⟩
        · rintro ⟨_, rfl, -, same⟩
          cases same
          rfl
    | error stuck =>
        constructor
        · intro resolved
          cases resolved
        · rintro ⟨_, -, -, same⟩
          cases same

theorem resolve_anchor (resolved : store.resolve path = .ok place) :
    place.anchor = .root := by
  obtain ⟨reached, rfl, -⟩ := resolve_eq_ok_iff.mp resolved
  rfl

theorem resolve_proper (resolved : store.resolve path = .ok place) (pathProper : path.Proper)
    (directoryProper : path.anchor = .relative → ∀ name ∈ store.workingDirectory, Path.ProperName name) :
    place.Proper := by
  obtain ⟨reached, rfl, -, reaches⟩ := resolve_eq_ok_iff.mp resolved
  apply resolveFrom_proper reaches _ pathProper
  unfold startOf
  split
  next relative => exact directoryProper relative
  next => simp

theorem resolve_settled (resolved : store.resolve path = .ok place) (fromRoot : path.anchor ≠ .relative) :
    store.Settled place.components := by
  obtain ⟨reached, rfl, -, reaches⟩ := resolve_eq_ok_iff.mp resolved
  apply resolveFrom_settled reaches
  simpa [startOf, fromRoot] using settled_nil store

theorem eq_of_resolve_of_settled (atRoot : path.anchor = .root) (settled : store.Settled path.components)
    (resolved : store.resolve path = .ok place) :
    place = path := by
  obtain ⟨reached, rfl, -, reaches⟩ := resolve_eq_ok_iff.mp resolved
  have starts : store.startOf path = [] := by simp [startOf, atRoot]
  rw [starts, resolveFrom_of_settled _ _ [] path.components settled] at reaches
  cases reaches
  obtain ⟨anchor, components⟩ := path
  subst atRoot
  rfl

theorem resolve_of_settled {path : Path} (atRoot : path.anchor = .root) (settled : store.Settled path.components)
    (noNull : hasNull path.components = false) :
    store.resolve path = .ok path := by
  have starts : store.startOf path = [] := by simp [startOf, atRoot]
  rw [resolve_eq_ok_iff]
  refine ⟨path.components, ?_, noNull, ?_⟩
  · obtain ⟨anchor, components⟩ := path
    subst atRoot
    rfl
  · rw [starts]
    exact resolveFrom_of_settled _ _ [] path.components settled

end Arborist.Store
