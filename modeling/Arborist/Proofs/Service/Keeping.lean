import Arborist.Analysis.Structure
import Arborist.Proofs.Service.Answers
import Arborist.Proofs.Service.Configuring
import Arborist.Proofs.Service.Parsing
import Arborist.Service.Files

/-!
Actions that leave the settings alone, and the switch and the limits of the cache.  All that reads files,
parses them and looks after projects is of this kind.
-/

namespace Arborist

theorem TreeCache.SameLimits.get {cache after : TreeCache} {settings : Settings} {now : Binary64}
    {key : String} {result : Option CacheEntry} (done : cache.get settings now key = .ok (result, after)) :
    SameLimits cache after := by
  rcases TreeCache.get_eq_ok done with ⟨rfl, -⟩ | ⟨old, -, -, rfl, -⟩
  · exact .refl _
  · exact ⟨rfl, rfl, rfl⟩

namespace Service

theorem Unchanged.refl (service : Service) : Unchanged service service := ⟨rfl, .refl _⟩

theorem Unchanged.trans {first second third : Service} (left : Unchanged first second)
    (right : Unchanged second third) : Unchanged first third :=
  ⟨right.settings.trans left.settings, left.cache.trans right.cache⟩

def Keeps (action : Action α) : Prop := ∀ service, Unchanged service (Action.run action service).2

theorem keeps_pure (value : α) : Keeps (pure value) := Unchanged.refl

theorem keeps_throw (fault : Fault) : Keeps (throw fault : Action α) := Unchanged.refl

theorem keeps_lift (result : Except Fault α) : Keeps (Action.lift result) := Unchanged.refl

theorem keeps_get : Keeps (get : Action Service) := Unchanged.refl

theorem keeps_onStore (read : Store → Except Fault α) : Keeps (Action.onStore read) := Unchanged.refl

theorem keeps_modify {change : Service → Service} (same : ∀ service, Unchanged service (change service)) :
    Keeps (modify change) := same

theorem Keeps.bind {action : Action α} {next : α → Action β} (keeps : Keeps action)
    (continues : ∀ value, Keeps (next value)) : Keeps (action >>= next) := by
  intro service
  have first := keeps service
  rw [Action.run_bind]
  rcases ran : Action.run action service with ⟨result, after⟩
  rw [ran] at first
  cases result with
  | ok value => exact first.trans (continues value after)
  | error fault => exact first

theorem keeps_throw_bind (fault : Fault) (next : α → Action β) : Keeps (throw fault >>= next) := by
  intro service
  rw [Action.run_bind, Action.run_throw]
  exact .refl service

theorem Keeps.mapFault {action : Action α} (keeps : Keeps action) (wrap : Fault → Fault) :
    Keeps (action.mapFault wrap) := by
  intro service
  rw [Action.run_mapFault]
  exact keeps service

theorem Keeps.attempt {action : Action α} (keeps : Keeps action) : Keeps action.attempt := by
  intro service
  rw [Action.run_attempt]
  exact keeps service

/-! Parsing. -/

theorem keeps_loadLanguage (language : String) : Keeps (loadLanguage language) :=
  keeps_get.bind fun _ => (keeps_lift _).bind fun _ => keeps_modify fun _ => ⟨rfl, .refl _⟩

theorem keeps_loadParser (language : String) : Keeps (loadParser language) :=
  keeps_get.bind fun _ => (keeps_lift _).bind fun _ => keeps_modify fun _ => ⟨rfl, .refl _⟩

theorem keeps_parseSource (source : ByteArray) (previous : Option Tree) :
    Keeps (parseSource source previous) := by
  refine keeps_get.bind fun service => (keeps_lift _).bind ?_
  rintro ⟨tree, engineLog⟩
  refine Keeps.bind (keeps_modify fun service => ?_) fun _ => keeps_pure tree
  exact ⟨rfl, .refl _⟩

theorem keeps_cacheGet (path : Path) (language : String) : Keeps (cacheGet path language) := by
  intro service
  rw [run_cacheGet]
  split
  · split
    next entry cache done => exact ⟨rfl, .get done⟩
    next => exact .refl service
  · exact .refl service

theorem keeps_cachePut (path : Path) (language : String) (tree : Tree) (source : ByteArray) :
    Keeps (cachePut path language tree source) := by
  intro service
  rw [run_cachePut]
  split
  next key _ _ =>
    cases done : service.cache.put service.settings service.clock key tree source with
    | error fault => exact .refl service
    | ok cache => exact ⟨rfl, .put done⟩
  · exact .refl service

theorem keeps_cacheInvalidate (path : Option Path) : Keeps (cacheInvalidate path) := by
  apply keeps_modify
  intro service
  cases path with
  | none => exact ⟨rfl, rfl, rfl, rfl⟩
  | some path => exact ⟨rfl, .foldl_remove _ _⟩

theorem keeps_keepTree (path : Path) (language : String) (source : ByteArray) :
    Keeps (keepTree path language source) :=
  (keeps_parseSource source none).bind fun _ => (keeps_cachePut path language _ source).bind fun _ =>
    keeps_pure _

theorem keeps_throughCache (path : Path) (language : String) {fallback : Action Parsed}
    (keeps : Keeps fallback) : Keeps (throughCache path language fallback) := by
  refine (keeps_cacheGet path language).bind fun cached => ?_
  cases cached with
  | none => exact keeps
  | some parsed => exact keeps_pure parsed

theorem keeps_readSource (path : Path) : Keeps (readSource path) := keeps_onStore _

theorem keeps_parseFile (path : Path) (language : String) : Keeps (parseFile path language) := by
  rw [parseFile_eq]
  refine keeps_throughCache path language (Keeps.mapFault ?_ _)
  refine (keeps_loadParser language).bind fun _ => ?_
  exact (keeps_readSource path).bind (keeps_keepTree path language)

theorem keeps_parseCached (path : Path) (language : String) : Keeps (parseCached path language) := by
  rw [parseCached_eq]
  refine keeps_throughCache path language ?_
  exact (keeps_readSource path).bind (keeps_keepTree path language)

theorem keeps_parseForQuery (path : Path) (language : String) :
    Keeps (Search.parseForQuery path language) := by
  rw [parseForQuery_eq]
  refine keeps_throughCache path language ?_
  refine (keeps_readSource path).bind fun source => ?_
  exact (keeps_loadParser language).bind fun _ => keeps_keepTree path language source

/-! Questions about files.  One service beside itself answers each question alike, so what all services
have in common with a first one is kept. -/

/-- One and the same service, that agrees with a first one. -/
structure Since (start first second : Service) : Prop where
  same : first = second
  unchanged : Unchanged start first

theorem Keeps.agree {action : Action α} (keeps : Keeps action) {same : α → α → Prop}
    (reflexive : ∀ value, same value value) (start : Service) :
    Action.Agree (Since start) same action action := by
  rintro first _ ⟨rfl, unchanged⟩
  exact ⟨.of_ok fun value _ => reflexive value, rfl, unchanged.trans (keeps first)⟩

theorem keeps_of_agree {action : Action α} {same : α → α → Prop}
    (agree : ∀ start, Action.Agree (Since start) same action action) : Keeps action :=
  fun service => (agree service service service ⟨rfl, .refl service⟩).kept.unchanged

theorem answering_since (start : Service) (project : Project) :
    Answering (Since start) project (fun _ => True) fun _ => True where
  engine_eq := fun since => congrArg engine since.same.symm
  extensions_eq := fun since => congrArg (fun service => service.registry.extensions) since.same.symm
  compiled := by
    rintro first _ text ⟨rfl, unchanged⟩
    exact ⟨rfl, unchanged.trans ⟨rfl, .refl _⟩⟩
  named_of_languageOf? := fun _ _ => trivial
  filePath_eq := by
    rintro first _ ⟨rfl, _⟩ file
    rfl
  checkAccess_eq := by
    rintro first _ ⟨rfl, _⟩ file root
    rfl
  readable_of_checkAccess := fun _ _ _ => trivial
  files_eq := by
    rintro first _ ⟨rfl, _⟩
    rfl
  readLines := fun _ => (keeps_onStore _).agree (fun _ => rfl) start
  loadLanguage := fun _ => (keeps_loadLanguage _).agree (fun _ => rfl) start
  parseFile := fun _ _ => (keeps_parseFile _ _).agree (fun _ => ⟨rfl, rfl⟩) start
  parseCached := fun _ _ =>
    ((keeps_loadLanguage _).bind fun _ => keeps_parseCached _ _).agree (fun _ => ⟨rfl, rfl⟩) start
  parseForQuery := fun _ _ => (keeps_parseForQuery _ _).agree (fun _ => ⟨rfl, rfl⟩) start

section Questions

variable (project : Project)

theorem keeps_fileTree (file : String) (maxDepth : Option Int) (includeText : Bool) :
    Keeps (fileTree project file maxDepth includeText) :=
  keeps_of_agree fun start => (answering_since start project).agree_fileTree file maxDepth includeText

theorem keeps_queryCode (query : Search.CodeQuery) (file language : Option String) :
    Keeps (Search.queryCode project query file language) :=
  keeps_of_agree fun start => (answering_since start project).agree_queryCode query file fun _ _ => trivial

theorem keeps_extractSymbols (file : String) (kinds : Option (List String)) (withoutMethods : Bool) :
    Keeps (Analysis.extractSymbols project file kinds withoutMethods) :=
  keeps_of_agree fun start =>
    (answering_since start project).agree_extractSymbols file kinds withoutMethods

theorem keeps_findDependencies (file : String) : Keeps (Analysis.findDependencies project file) :=
  keeps_of_agree fun start => (answering_since start project).agree_findDependencies file

theorem keeps_analyzeComplexity (file : String) : Keeps (Analysis.analyzeComplexity project file) :=
  keeps_of_agree fun start => (answering_since start project).agree_analyzeComplexity file

end Questions

/-! Projects and their files. -/

theorem keeps_findProject (name : String) : Keeps (findProject name) :=
  keeps_get.bind fun _ => keeps_lift _

theorem keeps_scanProject (project : Project) (force : Bool) : Keeps (scanProject project force) := by
  refine keeps_get.bind fun service => Keeps.bind (keeps_modify fun before => ?_) fun _ => keeps_pure _
  exact ⟨rfl, .refl _⟩

theorem keeps_registerProject (path : String) (name : Option String) (description : Value) :
    Keeps (registerProject path name description) := by
  refine Keeps.mapFault (keeps_get.bind fun service => (keeps_lift _).bind ?_) _
  rintro ⟨project, projects⟩
  refine Keeps.bind (keeps_modify fun before => ?_) fun _ => ?_
  · exact ⟨rfl, .refl _⟩
  · exact (keeps_scanProject project false).bind fun _ => keeps_pure _

theorem keeps_removeProject (name : String) : Keeps (removeProject name) := by
  refine keeps_get.bind fun service => (keeps_lift _).bind fun projects => ?_
  refine Keeps.bind (keeps_modify fun before => ?_) fun _ => keeps_pure _
  exact ⟨rfl, .refl _⟩

theorem keeps_listFiles (project : Project) (pattern : Option String) (depth : Option Int)
    (endings : List String) : Keeps (listFiles project pattern depth endings) := by
  refine keeps_get.bind fun service => ?_
  dsimp only
  split
  · split
    · exact keeps_pure _
    · exact keeps_throw _
    · exact keeps_throw _
  · split
    · exact keeps_pure _
    · exact keeps_throw _

theorem keeps_readablePath (project : Project) (path : String) : Keeps (readablePath project path) := by
  unfold readablePath
  refine keeps_get.bind fun service => ?_
  dsimp only
  split
  · exact (keeps_pure _).bind fun file => ((keeps_lift _).mapFault _).bind fun _ => keeps_pure file
  · exact keeps_throw_bind _ _
  · exact keeps_throw_bind _ _

theorem keeps_fileContent (project : Project) (path : String) (asBytes : Bool) (count : Option Int)
    (start : Int) : Keeps (fileContent project path asBytes count start) := by
  unfold fileContent
  refine (keeps_readablePath project path).bind fun file => ?_
  refine keeps_get.bind fun service => ?_
  dsimp only
  split
  · refine (keeps_pure _).bind fun bytes => ?_
    split
    · exact keeps_pure _
    · exact keeps_pure _
  · exact keeps_throw_bind _ _
  · exact keeps_throw_bind _ _

theorem keeps_countLines (path : String) : Keeps (countLines path) := by
  refine keeps_get.bind fun service => ?_
  split
  · exact keeps_pure _
  · exact keeps_pure _

theorem keeps_describeFile (project : Project) (path : String) : Keeps (describeFile project path) := by
  unfold describeFile
  refine (keeps_readablePath project path).bind fun file => ?_
  refine keeps_get.bind fun service => ?_
  dsimp only
  split
  · refine (keeps_pure _).bind fun entry => ?_
    split
    · exact (keeps_countLines _).bind fun _ => keeps_pure _
    · exact keeps_pure _
  · exact keeps_throw_bind _ _
  · exact keeps_throw_bind _ _

/-! The overview of a project. -/

theorem keeps_sampleSymbols (project : Project) (files : List String) :
    Keeps (Analysis.sampleSymbols project files) := by
  induction files with
  | nil => exact keeps_pure _
  | cons file rest ih =>
      refine (keeps_extractSymbols project file none false).attempt.bind fun result => ?_
      cases result with
      | ok table => exact ih.bind fun _ => keeps_pure _
      | error fault => exact ih

theorem keeps_languageSamples (project : Project) (depth : Nat) (languages : List String) :
    Keeps (Analysis.languageSamples project depth languages) := by
  induction languages with
  | nil => exact keeps_pure _
  | cons language rest ih =>
      refine keeps_get.bind fun service => (keeps_lift _).bind fun files => ?_
      refine (keeps_sampleSymbols project files).bind fun samples => ?_
      exact ih.bind fun _ => keeps_pure _

theorem keeps_overview (project : Project) (depth : Int) (context : ProgressContext) :
    Keeps (Analysis.overview project depth context) := by
  unfold Analysis.overview
  refine (keeps_scanProject project false).bind fun scanned => ?_
  refine keeps_get.bind fun service => (keeps_lift _).bind fun listings => ?_
  dsimp only
  split
  · exact (keeps_languageSamples scanned _ _).bind fun _ => keeps_pure _
  · exact (keeps_pure _).bind fun _ => keeps_pure _

end Service

end Arborist
