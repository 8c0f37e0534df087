import Arborist.File.Read
import Arborist.Proofs.File.PathText
import Arborist.Proofs.File.Resolution

/-!
Reading a file by the text of its path gives what the file system holds at that path.  A path without
links is found at its own components.
-/

namespace Arborist

namespace Path

theorem intercalate_getLast?_ne_slash {names : List String} (proper : ∀ name ∈ names, ProperName name) :
    ("/".intercalate names).toList.getLast? ≠ some '/' := by
  induction names with
  | nil => simp
  | cons first rest ih =>
      cases rest with
      | nil =>
          intro slash
          have member : '/' ∈ first.toList := by
            simpa using List.mem_of_getLast? slash
          exact (proper first (by simp)).no_slash member
      | cons second others =>
          have restProper : ∀ name ∈ second :: others, ProperName name :=
            fun name member => proper name (List.mem_cons_of_mem first member)
          obtain ⟨character, characters, equation, -⟩ := intercalate_eq_cons restProper (by simp)
          have notSlash := ih restProper
          rw [intercalate_cons_cons_toList]
          rw [equation] at notSlash ⊢
          simpa [List.getLast?_append, List.getLast?_cons] using notSlash

theorem text_isEmpty {path : Path} (proper : path.Proper) : path.text.isEmpty = false := by
  cases empty : path.text.isEmpty with
  | false => rfl
  | true =>
      have textEquation : path.text = "" := String.isEmpty_iff.mp empty
      have pathEquation := ofString_text proper
      rw [textEquation] at pathEquation
      rw [← pathEquation] at textEquation
      exact absurd textEquation (by decide)

theorem text_getLast?_ne_slash {path : Path} (proper : path.Proper) (nonempty : path.components ≠ []) :
    path.text.toList.getLast? ≠ some '/' := by
  obtain ⟨first, rest, equation, -⟩ := intercalate_eq_cons proper nonempty
  have notSlash := intercalate_getLast?_ne_slash proper
  have textEquation : path.text = path.anchor.text ++ "/".intercalate path.components := by
    simp [text, nonempty]
  rw [textEquation, String.toList_append]
  rw [equation] at notSlash ⊢
  simpa [List.getLast?_append, List.getLast?_cons] using notSlash

end Path

theorem Folder.find?_concat_of_directory {folder children : Folder} {names : List String} (name : String)
    (found : Folder.find? folder names = some (.directory children)) :
    Folder.find? folder (names ++ [name]) = Folder.get? children name := by
  induction names generalizing folder with
  | nil =>
      cases found
      rfl
  | cons first rest ih =>
      cases rest with
      | nil =>
          have here : Folder.get? folder first = some (.directory children) := found
          simp only [List.cons_append, List.nil_append, find?, here]
      | cons next others =>
          simp only [List.cons_append, find?] at found ⊢
          cases here : Folder.get? folder first with
          | none => simp [here] at found
          | some entry =>
              cases entry with
              | directory inner =>
                  simp only [here] at found ⊢
                  exact ih found
              | file content modified => simp [here] at found
              | link target => simp [here] at found

namespace Store

variable {store : Store} {path : Path} {content : ByteArray} {modified : Binary64} {place : List String}

theorem fileAt?_eq_some_iff :
    store.fileAt? path = some (content, modified) ↔
      ∃ place, store.locate path = .ok (place, .file content modified) := by
  unfold fileAt? entry?
  cases located : store.locate path with
  | error fault => simp
  | ok found =>
      obtain ⟨place, entry⟩ := found
      cases entry <;> simp

theorem not_hasNull_of_locate {found : List String × Entry} (located : store.locate path = .ok found) :
    hasNull path.components = false := by
  cases null : hasNull path.components with
  | false => rfl
  | true => simp [locate, null] at located

theorem find?_of_locate {entry : Entry} (located : store.locate path = .ok (place, entry)) :
    store.find? place = some entry := by
  unfold locate at located
  split at located
  · cases located
  · split at located
    · cases located
    · split at located
      next stands =>
        cases located
        exact stands
      next => cases located

theorem eq_of_followFrom_of_settled {depth : Nat} {current rest reached : List String}
    (settled : store.Settled (current ++ rest)) (follows : store.followFrom depth current rest = .ok reached) :
    reached = current ++ rest := by
  induction rest generalizing current with
  | nil =>
      rw [followFrom] at follows
      cases follows
      simp
  | cons name others ih =>
      obtain ⟨notDots, notLink⟩ := settled current name (by simp)
      rw [followFrom] at follows
      split at follows
      · cases follows
      next children found =>
        have next : store.find? (current ++ [name]) = Folder.get? children name :=
          Folder.find?_concat_of_directory name found
        rw [if_neg notDots] at follows
        split at follows
        · cases follows
        next target link => exact absurd (next.trans link) (notLink target)
        next =>
          rw [ih (by simpa using settled) follows]
          simp
      next => cases follows

theorem place_of_locate {entry : Entry} (atRoot : path.anchor = .root) (settled : store.Settled path.components)
    (located : store.locate path = .ok (place, entry)) : place = path.components := by
  have starts : store.startOf path = [] := by simp [startOf, atRoot]
  unfold locate at located
  rw [starts] at located
  split at located
  · cases located
  · split at located
    · cases located
    next reached follows =>
      split at located
      · cases located
        exact eq_of_followFrom_of_settled settled follows
      · cases located

theorem text_getLast?_of_locate (proper : path.Proper)
    (located : store.locate path = .ok (place, .file content modified)) :
    path.text.toList.getLast? ≠ some '/' := by
  by_cases empty : path.components = []
  · obtain ⟨anchor, components⟩ := path
    obtain rfl : components = [] := empty
    cases anchor with
    | relative => decide
    | root => simp [locate, hasNull, startOf, followFrom, find?, Folder.find?] at located
    | doubleRoot => simp [locate, hasNull, startOf, followFrom, find?, Folder.find?] at located
  · exact Path.text_getLast?_ne_slash proper empty

theorem openFile_text_eq_ok_iff (proper : path.Proper) :
    store.openFile path.text = .ok (content, modified) ↔ store.fileAt? path = some (content, modified) := by
  rw [fileAt?_eq_some_iff]
  unfold openFile
  rw [Path.ofString_text proper, Path.text_isEmpty proper]
  dsimp only
  constructor
  · intro opened
    split at opened
    · cases opened
    rw [if_neg (by simp)] at opened
    cases located : store.locate path with
    | error fault => simp [located] at opened
    | ok found =>
        obtain ⟨place, entry⟩ := found
        cases entry with
        | file bytes time =>
            simp only [located] at opened
            split at opened
            · cases opened
            · cases opened
              exact ⟨place, rfl⟩
        | link target => simp [located] at opened
        | directory children => simp [located] at opened
  · rintro ⟨place, located⟩
    rw [if_neg (by simp [not_hasNull_of_locate located]), if_neg (by simp), located]
    dsimp only
    rw [if_neg (text_getLast?_of_locate proper located)]

end Store

theorem File.readBytes_text_eq_ok_iff {store : Store} {path : Path} (proper : path.Proper)
    {content : ByteArray} :
    File.readBytes store path.text = .ok content ↔
      ∃ modified, store.fileAt? path = some (content, modified) := by
  simp only [← Store.openFile_text_eq_ok_iff proper]
  unfold File.readBytes Store.readBytes liftFile
  cases store.openFile path.text with
  | error fault =>
      constructor
      · intro opened
        cases opened
      · rintro ⟨modified, opened⟩
        cases opened
  | ok found =>
      obtain ⟨bytes, time⟩ := found
      constructor
      · intro opened
        cases opened
        exact ⟨time, rfl⟩
      · rintro ⟨modified, opened⟩
        cases opened
        rfl

end Arborist
