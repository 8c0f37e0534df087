import Arborist.Project.Access
import Arborist.Project.Basic
import Arborist.Proofs.Outcome

/-!
The four conditions under which a file may be read.  Its place begins like that of the root; on the way
to it there is no excluded directory; its extension is allowed; and it is not too large.
-/

namespace Arborist.Project

variable {store : Store} {settings : Settings} {file root : String}

theorem liftFile_eq_ok_iff {result : Except FileFault α} {value : α} :
    liftFile result = .ok value ↔ result = .ok value :=
  Outcome.mapError_eq_ok_iff

theorem checkExcluded_eq_ok_iff {segments : List String} {names : List Value} :
    checkExcluded segments names = .ok () ↔ ∀ name, .string name ∈ names → name ∉ segments := by
  induction names with
  | nil => simp [checkExcluded]
  | cons first rest ih =>
      cases first with
      | string name =>
          unfold checkExcluded
          by_cases onTheWay : segments.contains name
          · rw [if_pos onTheWay]
            constructor
            · intro refused
              cases refused
            · intro none
              exact absurd (by simpa using onTheWay) (none name (by simp))
          · rw [if_neg onTheWay, ih]
            constructor
            · intro others other member
              rcases List.mem_cons.mp member with same | inRest
              · cases same
                simpa using onTheWay
              · exact others other inRest
            · intro all other member
              exact all other (List.mem_cons_of_mem _ member)
      | _ => simp [checkExcluded, ih]

def AllowsExtension (allowed : Value) (path : Path) : Prop :=
  allowed.isVoid = true ∨
    allowed.hasMember (.string (String.ofList ((Text.lower path.suffix.toList).drop 1))) = .ok true

theorem checkExtension_eq_ok_iff {allowed : Value} {path : Path} :
    checkExtension allowed path = .ok () ↔ AllowsExtension allowed path := by
  unfold checkExtension AllowsExtension
  cases void : allowed.isVoid with
  | true => simp
  | false =>
      simp only [Bool.false_eq_true, if_false, false_or]
      rw [Outcome.bind_eq_ok_iff]
      constructor
      · rintro ⟨member, among, done⟩
        cases member with
        | true => exact among
        | false => cases done
      · intro among
        exact ⟨true, among, rfl⟩

theorem checkSize_eq_ok_iff {limit : Except Fault Value} {place : Path} :
    checkSize store limit place = .ok () ↔
      ∀ content modified, store.fileAt? place = some (content, modified) →
        ∃ most, limit = .ok most ∧ (Value.float (megabytes content.size)).exceeds most = .ok false := by
  unfold checkSize
  cases found : store.fileAt? place with
  | none => simp
  | some file =>
      obtain ⟨content, modified⟩ := file
      simp only [Outcome.bind_eq_ok_iff]
      constructor
      · rintro ⟨most, known, large, compared, done⟩ _ _ ⟨⟩
        cases large with
        | true => cases done
        | false => exact ⟨most, known, compared⟩
      · intro within
        obtain ⟨most, known, compared⟩ := within content modified rfl
        exact ⟨most, known, false, compared, rfl⟩

/-- What is asked of a path, and of the place for which it stands, beside being in the root. -/
structure Permitted (store : Store) (settings : Settings) (path place : Path) : Prop where
  notExcluded : ∃ value names, settings.excludedDirs = .ok value ∧ value.members = .ok names ∧
    ∀ name, .string name ∈ names → name ∉ place.segments
  extension : ∃ allowed, settings.allowedExtensions = .ok allowed ∧ AllowsExtension allowed path
  size : ∀ content modified, store.fileAt? place = some (content, modified) →
    ∃ most, settings.maxFileSizeMb = .ok most ∧
      (Value.float (megabytes content.size)).exceeds most = .ok false

theorem checkAccess_of_resolved {place base : Path} (resolved : store.resolve (.ofString file) = .ok place)
    (resolvedBase : store.resolve (.ofString root) = .ok base) :
    checkAccess store settings file root =
      if base.text.toList.isPrefixOf place.text.toList then do
        checkExcluded place.segments (← (← settings.excludedDirs).members)
        checkExtension (← settings.allowedExtensions) (.ofString file)
        checkSize store settings.maxFileSizeMb place
      else .error (.outsideRoot file) := by
  unfold checkAccess
  simp only [resolved, resolvedBase, liftFile, Outcome.ok_mapError, Outcome.ok_bind, Outcome.pure_eq_ok]
  cases base.text.toList.isPrefixOf place.text.toList <;> rfl

theorem resolved_of_checkAccess (allowed : checkAccess store settings file root = .ok ()) :
    ∃ place base, store.resolve (.ofString file) = .ok place ∧
      store.resolve (.ofString root) = .ok base ∧ base.text.toList <+: place.text.toList := by
  unfold checkAccess at allowed
  simp only [] at allowed
  split at allowed
  next found both =>
    rw [liftFile_eq_ok_iff, Outcome.bind_eq_ok_iff] at both
    obtain ⟨place, resolved, rest⟩ := both
    obtain ⟨base, resolvedBase, pair⟩ := Outcome.bind_eq_ok_iff.mp rest
    cases pair
    simp only [Outcome.pure_eq_ok, Outcome.ok_bind] at allowed
    split at allowed
    next => simp at allowed
    next starts => exact ⟨place, base, resolved, resolvedBase, by simpa using starts⟩
  next => simp at allowed
  next => simp at allowed

theorem checkAccess_eq_ok_iff :
    checkAccess store settings file root = .ok () ↔
      ∃ place base, store.resolve (.ofString file) = .ok place ∧
        store.resolve (.ofString root) = .ok base ∧ base.text.toList <+: place.text.toList ∧
        Permitted store settings (.ofString file) place := by
  constructor
  · intro granted
    obtain ⟨place, base, resolved, resolvedBase, starts⟩ := resolved_of_checkAccess granted
    rw [checkAccess_of_resolved resolved resolvedBase,
      if_pos (List.isPrefixOf_iff_prefix.mpr starts)] at granted
    obtain ⟨value, excluded, afterExcluded⟩ := Outcome.bind_eq_ok_iff.mp granted
    obtain ⟨names, listed, afterListed⟩ := Outcome.bind_eq_ok_iff.mp afterExcluded
    obtain ⟨_, passed, afterPassed⟩ := Outcome.bind_eq_ok_iff.mp afterListed
    obtain ⟨allowed, extensions, afterExtensions⟩ := Outcome.bind_eq_ok_iff.mp afterPassed
    obtain ⟨_, extension, size⟩ := Outcome.bind_eq_ok_iff.mp afterExtensions
    exact ⟨place, base, resolved, resolvedBase, starts,
      ⟨value, names, excluded, listed, checkExcluded_eq_ok_iff.mp passed⟩,
      ⟨allowed, extensions, checkExtension_eq_ok_iff.mp extension⟩, checkSize_eq_ok_iff.mp size⟩
  · rintro ⟨place, base, resolved, resolvedBase, starts, ⟨value, names, excluded, listed, passed⟩,
      ⟨allowed, extensions, extension⟩, size⟩
    rw [checkAccess_of_resolved resolved resolvedBase,
      if_pos (List.isPrefixOf_iff_prefix.mpr starts), excluded, Outcome.ok_bind, listed, Outcome.ok_bind,
      checkExcluded_eq_ok_iff.mpr passed, Outcome.ok_bind, extensions, Outcome.ok_bind,
      checkExtension_eq_ok_iff.mpr extension, Outcome.ok_bind]
    exact checkSize_eq_ok_iff.mpr size

end Arborist.Project
