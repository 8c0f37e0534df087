import Mathlib
import Arborist.Proofs.File.Resolution
import Arborist.Proofs.Project.Policy

/-!
Which paths a project accepts.  The check compares texts after resolving, so a path is accepted that
lies in the project's root, and also one that lies beside it, in a directory whose name begins with
that of the root; no other path is accepted.
-/

namespace Arborist.Project

variable {store : Store} {file : String} {project : Project} {place : Path}

theorem normalize_eq_ok_iff_of_anchored {path place : Path} (fromRoot : path.anchor ≠ .relative) :
    normalize store path = .ok place ↔ store.resolve path = .ok place := by
  have unchanged : store.expandHome path = .ok path := by
    obtain ⟨anchor, components⟩ := path
    cases anchor <;> simp_all [Store.expandHome]
  rw [normalize, liftFile_eq_ok_iff, unchanged]
  rfl

theorem exists_absolute_of_normalize {path place : Path} (normalized : normalize store path = .ok place) :
    ∃ names, place = Path.absolute names := by
  rw [normalize, liftFile_eq_ok_iff, Outcome.bind_eq_ok_iff] at normalized
  obtain ⟨expanded, -, resolved⟩ := normalized
  obtain ⟨reached, placeEquation, -⟩ := Store.resolve_eq_ok_iff.mp resolved
  exact ⟨reached, placeEquation⟩

theorem filePath_eq_ok_iff :
    project.filePath store file = .ok place ↔
      normalize store (project.root.join (.ofString file)) = .ok place ∧
        project.root.text.toList <+: place.text.toList := by
  unfold filePath
  rw [Outcome.bind_eq_ok_iff]
  constructor
  · rintro ⟨path, normalized, checked⟩
    split at checked
    next starts =>
      cases checked
      exact ⟨normalized, List.isPrefixOf_iff_prefix.mp starts⟩
    next => cases checked
  · rintro ⟨normalized, starts⟩
    refine ⟨place, normalized, ?_⟩
    rw [if_pos (List.isPrefixOf_iff_prefix.mpr starts)]
    rfl

theorem join_anchor_ne_relative {base : Path} (fromRoot : base.anchor ≠ .relative) (path : Path) :
    (base.join path).anchor ≠ .relative := by
  unfold Path.join
  split
  · exact fromRoot
  next pathFromRoot => exact pathFromRoot

theorem text_isPrefix_resolved_iff {base place : Path} (baseProper : base.Proper) (fromRoot : base.anchor ≠ .relative)
    (resolved : store.resolve (base.join (.ofString file)) = .ok place) :
    base.text.toList <+: place.text.toList ↔
      base.anchor = .root ∧ (base.components <+: place.components ∨ place.Beside base) := by
  have placeProper := Store.resolve_proper resolved (baseProper.join (Path.ofString_proper file))
    fun relative => absurd relative (join_anchor_ne_relative fromRoot _)
  obtain ⟨names, rfl, -⟩ := Store.resolve_eq_ok_iff.mp resolved
  exact Path.text_isPrefix_absolute_iff baseProper placeProper

theorem filePath_eq_ok_iff_inside_or_beside (rootProper : project.root.Proper) :
    project.filePath store file = .ok place ↔
      project.root.anchor = .root ∧
        store.resolve (project.root.join (.ofString file)) = .ok place ∧
        (project.root.components <+: place.components ∨ place.Beside project.root) := by
  rw [filePath_eq_ok_iff]
  constructor
  · rintro ⟨normalized, starts⟩
    have fromRoot : project.root.anchor ≠ .relative := by
      intro relative
      obtain ⟨names, rfl⟩ := exists_absolute_of_normalize normalized
      exact Path.not_isPrefix_absolute_of_relative rootProper relative names starts
    have resolved :=
      (normalize_eq_ok_iff_of_anchored (join_anchor_ne_relative fromRoot _)).mp normalized
    obtain ⟨atRoot, close⟩ := (text_isPrefix_resolved_iff rootProper fromRoot resolved).mp starts
    exact ⟨atRoot, resolved, close⟩
  · rintro ⟨atRoot, resolved, close⟩
    have fromRoot : project.root.anchor ≠ .relative := by simp [atRoot]
    exact ⟨(normalize_eq_ok_iff_of_anchored (join_anchor_ne_relative fromRoot _)).mpr resolved,
      (text_isPrefix_resolved_iff rootProper fromRoot resolved).mpr ⟨atRoot, close⟩⟩

theorem filePath_proper (rootProper : project.root.Proper) (accepted : project.filePath store file = .ok place) :
    place.Proper := by
  obtain ⟨atRoot, resolved, -⟩ := (filePath_eq_ok_iff_inside_or_beside rootProper).mp accepted
  apply Store.resolve_proper resolved (rootProper.join (Path.ofString_proper file))
  intro relative
  exact absurd relative (join_anchor_ne_relative (by simp [atRoot]) _)

theorem filePath_settled (rootProper : project.root.Proper) (accepted : project.filePath store file = .ok place) :
    store.Settled place.components := by
  obtain ⟨atRoot, resolved, -⟩ := (filePath_eq_ok_iff_inside_or_beside rootProper).mp accepted
  exact Store.resolve_settled resolved (join_anchor_ne_relative (by simp [atRoot]) _)

theorem resolved_root_eq {place base : Path} (rootProper : project.root.Proper)
    (accepted : project.filePath store file = .ok place) (inside : project.root.components <+: place.components)
    (resolvedRoot : store.resolve project.root = .ok base) : base = project.root := by
  obtain ⟨atRoot, resolved, -⟩ := (filePath_eq_ok_iff_inside_or_beside rootProper).mp accepted
  have fromRoot : project.root.anchor ≠ .relative := by simp [atRoot]
  have settled := Store.resolve_settled resolved (join_anchor_ne_relative fromRoot _)
  exact Store.eq_of_resolve_of_settled atRoot (settled.of_isPrefix inside) resolvedRoot

theorem relativeTo?_isSome_iff {path base : Path} (sameAnchor : path.anchor = base.anchor) :
    (path.relativeTo? base).isSome ↔ base.components <+: path.components := by
  unfold Path.relativeTo?
  simp [sameAnchor]

theorem relativePath_isOk_iff {path base place top : Path} (pathProper : path.Proper) (baseProper : base.Proper)
    (pathFromRoot : path.anchor ≠ .relative) (baseFromRoot : base.anchor ≠ .relative)
    (resolved : store.resolve path = .ok place) (resolvedBase : store.resolve base = .ok top) :
    (∃ rest, relativePath store path.text base.text = .ok rest) ↔
      top.components <+: place.components := by
  have normalized := (normalize_eq_ok_iff_of_anchored pathFromRoot).mpr resolved
  have normalizedBase := (normalize_eq_ok_iff_of_anchored baseFromRoot).mpr resolvedBase
  have sameAnchor : place.anchor = top.anchor :=
    (Store.resolve_anchor resolved).trans (Store.resolve_anchor resolvedBase).symm
  rw [← relativeTo?_isSome_iff sameAnchor]
  unfold relativePath
  rw [Path.ofString_text pathProper, Path.ofString_text baseProper, normalized, normalizedBase]
  cases told : place.relativeTo? top with
  | none => simp [told]
  | some rest => simp [told]

def namesakeStore : Store :=
  { root := [("a", .directory []), ("ab", .directory [("f", .file .empty (.finite 1))])]
    workingDirectory := ["a"] }

end Arborist.Project
