import Arborist.Proofs.File.Reading
import Arborist.Proofs.Settings.Adoption
import Arborist.Settings.Load

/-!
Loading settings: what is loaded from a document is what the document says, and all that is loaded can be
taken over as a whole.
-/

namespace Arborist.Settings

theorem fileExists_of_readText {store : Store} {path : Path} (proper : path.Proper) {text : String}
    (read : readText store path.text = .ok text) : store.fileExists path = true := by
  obtain ⟨bytes, opened, -⟩ := Outcome.bind_eq_ok_iff.mp read
  obtain ⟨modified, stands⟩ := (File.readBytes_text_eq_ok_iff proper).mp opened
  obtain ⟨place, located⟩ := Store.fileAt?_eq_some_iff.mp stands
  simp [Store.fileExists, Store.entry?, located]

/-- The file at a path can be read, is not blank, and holds a mapping. -/
def States (store : Store) (path : String) (entries : List (Value × Value)) : Prop :=
  ∃ text, readText store path = .ok text ∧ Text.strip text.toList ≠ [] ∧
    Yaml.load? text = some (.map entries)

theorem document?_eq_some_iff {store : Store} {path : String} {settings : Settings} :
    document? store path = some settings ↔
      ∃ entries, States store path entries ∧ ofEntries entries = .ok settings := by
  constructor
  · intro stated
    rw [document?] at stated
    split at stated
    · cases stated
    next text read =>
      split at stated
      · cases stated
      next filled =>
        split at stated
        next entries holds =>
          refine ⟨entries, ⟨text, read, by simpa using filled, holds⟩, ?_⟩
          cases made : ofEntries entries with
          | error fault => simp [made, Except.toOption] at stated
          | ok result => simpa [made, Except.toOption] using stated
        next => cases stated
  · rintro ⟨entries, ⟨text, read, filled, holds⟩, made⟩
    have notBlank : (Text.strip text.toList).isEmpty = false := by simpa using filled
    rw [document?, read]
    simp only [notBlank, holds, made]
    rfl

theorem regular_of_document? {store : Store} {path : String} {settings : Settings}
    (stated : document? store path = some settings) : settings.Regular := by
  obtain ⟨entries, -, made⟩ := document?_eq_some_iff.mp stated
  exact regular_of_ofEntries made

theorem loadDocument_eq (store : Store) {path : Path} (proper : path.Proper) :
    loadDocument store path = ((document? store path.text).map taken).getD {} := by
  rw [loadDocument, document?, ofDocument, Path.ofString_text proper]
  cases read : readText store path.text with
  | error fault => simp
  | ok text =>
      rw [fileExists_of_readText proper read]
      -- what is no mapping, or no valid one, stands for the standard settings
      have standard : adopt {} {} = .ok {} := adopt_eq_taken regular_standard.sectioned regular_standard
      by_cases blank : (Text.strip text.toList).isEmpty = true
      · simp [blank]
      · cases data : Yaml.load? text with
        | none => simp [blank, data, standard]
        | some value =>
            cases value with
            | map entries =>
                cases made : ofEntries entries with
                | error fault => simp [blank, data, made, standard, Except.toOption]
                | ok settings =>
                    have taken := adopt_eq_taken regular_standard.sectioned (regular_of_ofEntries made)
                    simp [blank, data, made, taken, Except.toOption]
            | _ => simp [blank, data, standard]

theorem load_of_named {path : String} (named : path ≠ "") (store : Store) (environment : Environment) :
    load store environment (some path) =
      .ok (((document? store (Path.ofString path).text).map taken).getD {}) := by
  rw [← loadDocument_eq store (Path.ofString_proper path)]
  simp [load, named]

theorem regular_loadDocument (store : Store) {path : Path} (proper : path.Proper) :
    (loadDocument store path).Regular := by
  rw [loadDocument_eq store proper]
  cases stated : document? store path.text with
  | none => exact regular_standard
  | some settings => exact (regular_of_document? stated).taken

theorem defaultPath?_proper {store : Store} {environment : Environment} {path : Path}
    (found : defaultPath? store environment = some path) : path.Proper := by
  rw [defaultPath?] at found
  split at found
  · exact Option.some.inj found ▸ (Path.ofString_proper _).join (Path.ofString_proper _)
  · cases found

theorem regular_of_load {store : Store} {environment : Environment} {path : Option String}
    {loaded : Settings} (done : load store environment path = .ok loaded) : loaded.Regular := by
  have fromDocument {path : Path} (proper : path.Proper)
      (done : Except.ok (loadDocument store path) = (.ok loaded : Except Fault Settings)) :
      loaded.Regular := Except.ok.inj done ▸ regular_loadDocument store proper
  unfold load at done
  dsimp only at done
  split at done
  · exact fromDocument (Path.ofString_proper _) done
  · split at done
    · exact fromDocument (Path.ofString_proper _) done
    · split at done
      next path found => exact fromDocument (defaultPath?_proper found) done
      next =>
        obtain ⟨settings, named, adopted⟩ := Outcome.bind_eq_ok_iff.mp done
        have regular := regular_of_ofEnvironment named
        rw [adopt_eq_taken regular_standard.sectioned regular] at adopted
        exact Except.ok.inj adopted ▸ regular.taken

end Arborist.Settings
