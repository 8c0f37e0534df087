import Mathlib
import Arborist.Proofs.Analysis.Asking
import Arborist.Proofs.Project.Policy

/-!
Files whose trees are recorded.  Opening such a file without a cache gives the recorded tree, and a query
gives the captures that are recorded with it.  A shelf is a project of two files with the same content.
-/

namespace Arborist

theorem Engine.capture_recorded {record : Record} {text : String} {serial index : Nat} {root : Node}
    {entry : TreeRecord} {captures : Captures} (compiles : record.queryFaults = [])
    (stands : record.trees[index]? = some entry)
    (listed : entry.captures.lookup (queryKey text) = some captures) :
    (Engine.recorded record).capture text ⟨serial, some index, root⟩ = .ok captures := by
  simp [capture, compile, run, compiles, stands, listed, Except.map]

/-- Under each key, one list of captures tells something related to the other. -/
def Engine.Keyed (same : Captures → Captures → Prop) : List (String × Captures) → List (String × Captures) → Prop :=
  List.Forall₂ fun left right => left.1 = right.1 ∧ same left.2 right.2

theorem Engine.Keyed.lookup {same : Captures → Captures → Prop} (nothing : same (.list []) (.list []))
    {captures others : List (String × Captures)} (keyed : Keyed same captures others) (key : String) :
    same ((captures.lookup key).getD (.list [])) ((others.lookup key).getD (.list [])) := by
  induction keyed with
  | nil => exact nothing
  | @cons first second _ _ related _ ih =>
      obtain ⟨name, captured⟩ := first
      obtain ⟨_, other⟩ := second
      obtain ⟨rfl, related⟩ := related
      by_cases here : key = name
      · rw [here, List.lookup_cons_self, List.lookup_cons_self]
        exact related
      · rw [List.lookup_cons, List.lookup_cons, beq_eq_false_iff_ne.mpr here]
        exact ih

theorem Engine.retold_recorded {same : Captures → Captures → Prop} (asked : String → Prop)
    (nothing : same (.list []) (.list [])) (entry : TreeRecord) {captures : List (String × Captures)}
    (keyed : Keyed same entry.captures captures) :
    Engine.Retold asked same (.recorded { trees := [entry] })
      (.recorded { trees := [{ entry with captures }] }) where
  grammar_eq _ := rfl
  parser_eq _ := rfl
  parse_eq log source previous := by
    cases own : entry.source == source with
    | true => simp [parse, Record.find?, own]
    | false => simp [parse, Record.find?, own]
  capture text _ tree := by
    refine Alike.ok ?_
    obtain ⟨serial, origin, root⟩ := tree
    match origin with
    | none => exact nothing
    | some 0 => exact keyed.lookup nothing (queryKey text)
    | some (_ + 1) => exact nothing

namespace Service

theorem openAs_recorded {service : Service} {record : Record} {path : Path} {language : String}
    {content : ByteArray} {modified : Binary64} {index : Nat} {entry : TreeRecord}
    (off : service.cache.enabled.isVoid = true) (driven : service.engine = .recorded record)
    (available : record.missingLanguages = []) (proper : path.Proper)
    (here : service.store.fileAt? path = some (content, modified))
    (found : Engine.Record.find? record content = some (index, entry)) (sound : entry.parseFault = none) :
    ∃ registry engineLog, (openAs path language).run service =
      (.ok ⟨⟨index, some index, entry.root⟩, content⟩, { service with registry, engineLog }) := by
  obtain ⟨registry, loads⟩ : ∃ registry, service.registry.load service.engine language = .ok registry := by
    unfold LanguageRegistry.load
    split
    · exact ⟨_, rfl⟩
    · simp [driven, Engine.grammar, available]
  have read : File.readBytes service.store path.text = .ok content :=
    (File.readBytes_text_eq_ok_iff proper).mpr ⟨modified, here⟩
  have parses : service.engine.parse service.engineLog content none =
      .ok (⟨index, some index, entry.root⟩, service.engineLog.notePrevious ⟨index, some index, entry.root⟩ none) := by
    simp [driven, Engine.parse, found, sound]
  refine ⟨registry, service.engineLog.notePrevious ⟨index, some index, entry.root⟩ none, ?_⟩
  unfold openAs
  rw [Action.run_bind, run_loadLanguage, loads]
  dsimp only [replaceRegistry]
  have stillOff : ({ service with registry } : Service).cache.enabled.isVoid = true := off
  rw [parseCached_eq, run_throughCache_of_off stillOff, Action.run_bind, run_readSource]
  dsimp only
  rw [read]
  dsimp only
  unfold keepTree
  rw [Action.run_bind, run_parseSource]
  dsimp only
  rw [parses]
  dsimp only
  rw [Action.run_bind, run_cachePut]
  simp [TreeCache.isEnabled, off]

/-! A shelf. -/

def shelf (content : ByteArray) : Store :=
  { root := [("p", .directory [("a.py", .file content (.finite 0)), ("b.go", .file content (.finite 0))])] }

def shelfProject : Project := { name := "p", root := .absolute ["p"] }

def shelfService (entry : TreeRecord) : Service where
  store := shelf entry.source
  engine := .recorded { trees := [entry] }
  cache := { enabled := .bool false }

def Light (content : ByteArray) : Prop :=
  (Binary64.finite (5 : Int)).lt (Project.megabytes content.size) = false

instance (content : ByteArray) : Decidable (Light content) := inferInstanceAs (Decidable (_ = _))

section

variable {content : ByteArray} {file : String} (listed : file = "a.py" ∨ file = "b.go")

include listed

theorem fileAt?_shelf : (shelf content).fileAt? (.absolute ["p", file]) = some (content, .finite 0) := by
  rcases listed with rfl | rfl <;> cbv

theorem grantedPath_shelf (light : Light content) :
    grantedPath (shelf content) {} shelfProject file = .ok (.absolute ["p", file]) := by
  have accepted : shelfProject.filePath (shelf content) file = .ok (.absolute ["p", file]) := by
    rcases listed with rfl | rfl <;> cbv
  have resolved : (shelf content).resolve (.ofString (Path.absolute ["p", file]).text) =
      .ok (.absolute ["p", file]) := by
    rcases listed with rfl | rfl <;> cbv
  have resolvedRoot : (shelf content).resolve (.ofString shelfProject.root.text) = .ok (.absolute ["p"]) := by
    cbv
  have size : Project.checkSize (shelf content) ({} : Settings).maxFileSizeMb (.absolute ["p", file]) =
      .ok () := by
    rw [Project.checkSize_eq_ok_iff, fileAt?_shelf listed]
    rintro _ _ ⟨⟩
    exact ⟨_, rfl, congrArg Except.ok light⟩
  have granted : Project.checkAccess (shelf content) {} (Path.absolute ["p", file]).text
      shelfProject.root.text = .ok () := by
    rw [Project.checkAccess_of_resolved resolved resolvedRoot]
    have inside : (Path.absolute ["p"]).text.toList.isPrefixOf
        (Path.absolute ["p", file]).text.toList = true := by
      rcases listed with rfl | rfl <;> decide
    rw [if_pos inside]
    rcases listed with rfl | rfl
    · exact size
    · exact size
  unfold grantedPath
  rw [accepted, Outcome.ok_bind, granted]
  rfl

theorem proper_shelf : (Path.absolute ["p", file]).Proper := by
  rcases listed with rfl | rfl <;> decide

theorem readLines_shelf :
    File.readLines (shelf content) (Path.absolute ["p", file]).text = .ok (File.textLines content) := by
  have read : File.readBytes (shelf content) (Path.absolute ["p", file]).text = .ok content :=
    (File.readBytes_text_eq_ok_iff (proper_shelf listed)).mpr ⟨_, fileAt?_shelf listed⟩
  rw [File.readLines, read]
  rfl

theorem openAs_shelf {entry : TreeRecord} (sound : entry.parseFault = none) (language : String)
    (registry : LanguageRegistry) (engineLog : EngineLog) :
    ∃ loaded noted, (openAs (.absolute ["p", file]) language).run
        { shelfService entry with registry, engineLog } =
      (.ok ⟨⟨0, some 0, entry.root⟩, entry.source⟩,
        { shelfService entry with registry := loaded, engineLog := noted }) := by
  have own : (entry.source == entry.source) = true := by
    change (entry.source.data == entry.source.data) = true
    exact beq_self_eq_true _
  have found : Engine.Record.find? { trees := [entry] } entry.source = some (0, entry) := by
    simp [Engine.Record.find?, own]
  exact openAs_recorded rfl rfl rfl (proper_shelf listed) (fileAt?_shelf listed) found sound

theorem opens_shelf {entry : TreeRecord} (light : Light entry.source) (sound : entry.parseFault = none)
    {registry : LanguageRegistry} {language : String} (detected : registry.languageOf? file = some language)
    (engineLog : EngineLog) :
    { shelfService entry with registry, engineLog }.Opens shelfProject file language
      ⟨⟨0, some 0, entry.root⟩, entry.source⟩ := by
  have allowed : ((allowedPath shelfProject file).run { shelfService entry with registry, engineLog }).1 =
      .ok (.absolute ["p", file]) := by
    rw [run_allowedPath]
    exact grantedPath_shelf listed light
  obtain ⟨loaded, noted, opening⟩ := openAs_shelf listed sound language registry engineLog
  exact ⟨detected, _, allowed, congrArg Prod.fst opening⟩

end

theorem capture_shelf {entry : TreeRecord} {text : String} {captures : Captures}
    (listed : entry.captures.lookup (queryKey text) = some captures) :
    (shelfService entry).engine.capture text ⟨0, some 0, entry.root⟩ = .ok captures :=
  Engine.capture_recorded rfl rfl listed

end Service

end Arborist
