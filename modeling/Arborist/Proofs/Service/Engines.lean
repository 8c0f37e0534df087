import Arborist.Proofs.Outcome
import Arborist.Proofs.Service.Agreement
import Arborist.Proofs.Service.Parsing

/-!
One service with one or the other of two engines.  If both engines have the same grammars and parsers and
parse alike, files are found, read, parsed and kept in the same way with either of them; only what queries
capture may differ.
-/

namespace Arborist

namespace Engine

def capture (engine : Engine) (text : String) (tree : Tree) : Except Fault Captures :=
  (engine.compile text).map fun query => engine.run query tree

/-- Two engines that differ at most in what their queries capture; for the queries that are asked, the
captures of one are in a relation to those of the other. -/
structure Retold (asked : String → Prop) (same : Captures → Captures → Prop) (left right : Engine) :
    Prop where
  grammar_eq : ∀ language, right.grammar language = left.grammar language
  parser_eq : ∀ language, right.parser language = left.parser language
  parse_eq : ∀ log source previous, right.parse log source previous = left.parse log source previous
  capture : ∀ text, asked text → ∀ tree, Alike same (left.capture text tree) (right.capture text tree)

theorem Retold.refl (asked : String → Prop) (engine : Engine) : Retold asked Eq engine engine where
  grammar_eq _ := rfl
  parser_eq _ := rfl
  parse_eq _ _ _ := rfl
  capture _ _ _ := .refl _

end Engine

namespace Service

def grantedPath (store : Store) (settings : Settings) (project : Project) (file : String) :
    Except Fault Path := do
  let path ← project.filePath store file
  (Project.checkAccess store settings path.text project.root.text).mapError
    fun fault => if fault.category = .security then .denied fault else fault
  return path

theorem run_allowedPath (service : Service) (project : Project) (file : String) :
    (allowedPath project file).run service =
      (grantedPath service.store service.settings project file, service) := by
  unfold allowedPath grantedPath
  simp only [Action.run_bind, Action.run_get, Action.run_lift, Action.run_mapFault]
  cases project.filePath service.store file with
  | error fault => rfl
  | ok path =>
      rw [Outcome.ok_bind]
      dsimp only
      cases Project.checkAccess service.store service.settings path.text project.root.text <;> rfl

structure Swapped (left right : Engine) (first second : Service) : Prop where
  driven : first.engine = left
  other : second = { first with engine := right }

theorem swapped (service : Service) (right : Engine) :
    Swapped service.engine right service { service with engine := right } := ⟨rfl, rfl⟩

variable {left right : Engine}

theorem agree_of_indifferent {action : Action α}
    (indifferent : ∀ service engine, action.run { service with engine } =
      ((action.run service).1, { (action.run service).2 with engine })) :
    Action.Agree (Swapped left right) Eq action action := by
  rintro service _ ⟨driven, rfl⟩
  have kept : (action.run service).2.engine = service.engine :=
    congrArg (fun outcome => outcome.2.engine) (indifferent service service.engine)
  rw [indifferent service right]
  exact ⟨.refl _, kept.trans driven, rfl⟩

theorem agree_allowedPath_swapped (project : Project) (file : String) :
    Action.Agree (Swapped left right) Eq (allowedPath project file) (allowedPath project file) := by
  refine agree_of_indifferent fun service engine => ?_
  rw [run_allowedPath, run_allowedPath]

theorem agree_readSource_swapped (path : Path) :
    Action.Agree (Swapped left right) Eq (readSource path) (readSource path) :=
  agree_of_indifferent fun _ _ => rfl

theorem agree_cacheGet_swapped (path : Path) (language : String) :
    Action.Agree (Swapped left right) Eq (cacheGet path language) (cacheGet path language) := by
  refine agree_of_indifferent fun service engine => ?_
  rw [run_cacheGet, run_cacheGet]
  cases service.cache.isEnabled service.settings with
  | false => rfl
  | true =>
      have sameKey : keyAt? { service with engine } path language = service.keyAt? path language := rfl
      rw [sameKey]
      cases service.keyAt? path language with
      | none => rfl
      | some key =>
          dsimp only
          cases service.cache.get service.settings service.clock key <;> rfl

theorem agree_cachePut_swapped (path : Path) (language : String) (tree : Tree) (source : ByteArray) :
    Action.Agree (Swapped left right) Eq (cachePut path language tree source)
      (cachePut path language tree source) := by
  refine agree_of_indifferent fun service engine => ?_
  rw [run_cachePut, run_cachePut]
  cases service.cache.isEnabled service.settings with
  | false => rfl
  | true =>
      have sameKey : keyAt? { service with engine } path language = service.keyAt? path language := rfl
      rw [sameKey]
      cases service.keyAt? path language with
      | none => rfl
      | some key =>
          dsimp only
          cases service.cache.put service.settings service.clock key tree source <;> rfl

theorem agree_throughCache_swapped (path : Path) (language : String) {fallback : Action Parsed}
    (agree : Action.Agree (Swapped left right) Eq fallback fallback) :
    Action.Agree (Swapped left right) Eq (throughCache path language fallback)
      (throughCache path language fallback) := by
  refine (agree_cacheGet_swapped path language).bind_eq fun held => ?_
  cases held with
  | some parsed => exact Action.agree_pure rfl
  | none => exact agree

variable {asked : String → Prop} {same : Captures → Captures → Prop} (retold : left.Retold asked same right)

include retold

theorem agree_loadLanguage_swapped (language : String) :
    Action.Agree (Swapped left right) Eq (loadLanguage language) (loadLanguage language) := by
  rintro service _ ⟨rfl, rfl⟩
  have loads : service.registry.load right language = service.registry.load service.engine language := by
    unfold LanguageRegistry.load
    rw [retold.grammar_eq]
  rw [run_loadLanguage, run_loadLanguage]
  dsimp only
  rw [loads]
  cases service.registry.load service.engine language with
  | error fault => exact ⟨.error fault, rfl, rfl⟩
  | ok registry => exact ⟨.ok rfl, rfl, rfl⟩

theorem agree_loadParser_swapped (language : String) :
    Action.Agree (Swapped left right) Eq (loadParser language) (loadParser language) := by
  rintro service _ ⟨rfl, rfl⟩
  have loads : service.registry.loadParser right language =
      service.registry.loadParser service.engine language := by
    unfold LanguageRegistry.loadParser LanguageRegistry.load
    rw [retold.parser_eq, retold.grammar_eq]
  rw [run_loadParser, run_loadParser]
  dsimp only
  rw [loads]
  cases service.registry.loadParser service.engine language with
  | error fault => exact ⟨.error fault, rfl, rfl⟩
  | ok registry => exact ⟨.ok rfl, rfl, rfl⟩

theorem agree_parseSource_swapped (source : ByteArray) (previous : Option Tree) :
    Action.Agree (Swapped left right) Eq (parseSource source previous) (parseSource source previous) := by
  rintro service _ ⟨rfl, rfl⟩
  rw [run_parseSource, run_parseSource]
  dsimp only
  rw [retold.parse_eq]
  cases service.engine.parse service.engineLog source previous with
  | error fault => exact ⟨.error fault, rfl, rfl⟩
  | ok result => exact ⟨.ok rfl, rfl, rfl⟩

theorem agree_keepTree_swapped (path : Path) (language : String) (source : ByteArray) :
    Action.Agree (Swapped left right) Eq (keepTree path language source) (keepTree path language source) := by
  refine (agree_parseSource_swapped retold source none).bind_eq fun tree => ?_
  exact (agree_cachePut_swapped path language tree source).bind_eq fun _ => Action.agree_pure rfl

theorem agree_parseCached_swapped (path : Path) (language : String) :
    Action.Agree (Swapped left right) Eq (parseCached path language) (parseCached path language) := by
  rw [parseCached_eq]
  refine agree_throughCache_swapped path language ?_
  exact (agree_readSource_swapped path).bind_eq (agree_keepTree_swapped retold path language)

theorem agree_parseForQuery_swapped (path : Path) (language : String) :
    Action.Agree (Swapped left right) Eq (Search.parseForQuery path language)
      (Search.parseForQuery path language) := by
  rw [parseForQuery_eq]
  refine agree_throughCache_swapped path language ?_
  refine (agree_readSource_swapped path).bind_eq fun source => ?_
  exact (agree_loadParser_swapped retold language).bind_eq fun _ =>
    agree_keepTree_swapped retold path language source

theorem agree_runQuery_swapped {text : String} (isAsked : asked text) (tree : Tree) :
    Action.Agree (Swapped left right)
      (fun captures others => left.capture text tree = .ok captures ∧ same captures others)
      (runQuery text tree) (runQuery text tree) := by
  rintro service _ ⟨rfl, rfl⟩
  have alike := retold.capture text isAsked tree
  unfold Engine.capture at alike ⊢
  unfold runQuery compileQuery
  simp only [Action.run_bind, Action.run_get, Action.run_lift]
  generalize onLeft : service.engine.compile text = compiled at alike
  generalize onRight : right.compile text = recompiled at alike
  cases compiled with
  | error fault =>
      cases recompiled with
      | error other =>
          cases alike
          exact ⟨.error fault, rfl, rfl⟩
      | ok query => cases alike
  | ok query =>
      cases recompiled with
      | error other => cases alike
      | ok other =>
          cases alike with
          | ok related => exact ⟨.ok ⟨rfl, related⟩, rfl, rfl⟩

end Service

end Arborist
