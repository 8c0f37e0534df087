import Arborist.Analysis.Complexity
import Arborist.Analysis.Import
import Arborist.Search.Query
import Arborist.Proofs.Service.Agreement

/-!
Questions about files.  Two services that find the same paths, grant the same accesses and parse files to
trees of one shape answer each question alike.
-/

namespace Arborist

def Tree.shape (tree : Tree) : Option Nat × Node := (tree.origin, tree.root)

structure Service.Parsed.Same (left right : Service.Parsed) : Prop where
  shape : left.tree.shape = right.tree.shape
  source : left.source = right.source

theorem Engine.run_congr (engine : Engine) (query : Query) {tree other : Tree}
    (same : tree.shape = other.shape) : engine.run query tree = engine.run query other := by
  have origins : tree.origin = other.origin := congrArg Prod.fst same
  have roots : tree.root = other.root := congrArg Prod.snd same
  unfold run
  rw [origins, roots]

theorem Service.Parsed.Same.root_eq {left right : Service.Parsed} (same : left.Same right) :
    left.tree.root = right.tree.root :=
  congrArg Prod.snd same.shape

theorem Alike.of_ok {same : α → α → Prop} {result : Except Fault α}
    (implied : ∀ value, result = .ok value → same value value) : Alike same result result := by
  cases result with
  | ok value => exact .ok (implied value rfl)
  | error fault => exact .error fault

/-- What related services have in common, as far as questions about a project go.  A path is readable
once access to it has been granted. -/
structure Answering (kept : Service → Service → Prop) (project : Project) (readable : Path → Prop)
    (named : String → Prop) : Prop where
  engine_eq : ∀ {first second}, kept first second → second.engine = first.engine
  extensions_eq : ∀ {first second}, kept first second →
    second.registry.extensions = first.registry.extensions
  compiled : ∀ {first second} (text : String), kept first second →
    kept { first with compiled := first.compiled ++ [queryKey text] }
      { second with compiled := second.compiled ++ [queryKey text] }
  named_of_languageOf? : ∀ {first second file language}, kept first second →
    first.registry.languageOf? file = some language → named language
  filePath_eq : ∀ {first second}, kept first second → ∀ file,
    project.filePath second.store file = project.filePath first.store file
  checkAccess_eq : ∀ {first second}, kept first second → ∀ file root,
    Project.checkAccess second.store second.settings file root =
      Project.checkAccess first.store first.settings file root
  readable_of_checkAccess : ∀ {first second file path}, kept first second →
    project.filePath first.store file = .ok path →
    Project.checkAccess first.store first.settings path.text project.root.text = .ok () → readable path
  files_eq : ∀ {first second}, kept first second →
    Search.filesWithExtension second.store project = Search.filesWithExtension first.store project
  readLines : ∀ {path}, readable path →
    Action.Agree kept Eq (Action.onStore fun store => File.readLines store path.text)
      (Action.onStore fun store => File.readLines store path.text)
  loadLanguage : ∀ {language}, named language →
    Action.Agree kept Eq (Service.loadLanguage language) (Service.loadLanguage language)
  parseFile : ∀ {path language}, readable path → named language →
    Action.Agree kept Service.Parsed.Same (Service.parseFile path language) (Service.parseFile path language)
  parseCached : ∀ {path language}, readable path → named language →
    Action.Agree kept Service.Parsed.Same
      (Service.loadLanguage language >>= fun _ => Service.parseCached path language)
      (Service.loadLanguage language >>= fun _ => Service.parseCached path language)
  parseForQuery : ∀ {path language}, readable path → named language →
    Action.Agree kept Service.Parsed.Same (Search.parseForQuery path language)
      (Search.parseForQuery path language)

variable {kept : Service → Service → Prop} {project : Project} {readable : Path → Prop}
  {named : String → Prop}

namespace Answering

variable {parsed again : Parsed} {first second : Service} {path : Path} {language : String}

open Service (Parsed)

variable (answering : Answering kept project readable named)

include answering

theorem agree_checkAccess (related : kept first second) {file : String}
    (accepted : project.filePath first.store file = .ok path) (wrap : Fault → Fault) :
    Action.Agree kept (fun _ _ => readable path)
      (Action.mapFault (Action.lift
        (Project.checkAccess first.store first.settings path.text project.root.text)) wrap)
      (Action.mapFault (Action.lift
        (Project.checkAccess second.store second.settings path.text project.root.text)) wrap) := by
  rw [answering.checkAccess_eq related]
  refine (Action.agree_lift (.of_ok fun _ granted => ?_)).mapFault wrap
  exact answering.readable_of_checkAccess related accepted granted

theorem agree_allowedPath (file : String) :
    Action.Agree kept (fun left right => left = right ∧ readable left)
      (Service.allowedPath project file) (Service.allowedPath project file) := by
  unfold Service.allowedPath
  refine Action.agree_get.bind fun first second related => ?_
  rw [answering.filePath_eq related]
  have found : Alike (fun left right => left = right ∧ project.filePath first.store file = .ok left)
      (project.filePath first.store file) (project.filePath first.store file) :=
    .of_ok fun _ accepted => ⟨rfl, accepted⟩
  refine (Action.agree_lift found).bind ?_
  rintro path _ ⟨rfl, accepted⟩
  refine (answering.agree_checkAccess related accepted _).bind fun _ _ granted => ?_
  exact Action.agree_pure ⟨rfl, granted⟩

theorem languageOf?_eq (related : kept first second) (file : String) :
    second.registry.languageOf? file = first.registry.languageOf? file := by
  rw [LanguageRegistry.languageOf?, LanguageRegistry.languageOf?, answering.extensions_eq related]

theorem agree_languageOf (related : kept first second) {file : String} {same : α → α → Prop} {unknown : Fault}
    {next : String → Action α}
    (continues : ∀ language, named language → Action.Agree kept same (next language) (next language)) :
    Action.Agree kept same
      (match first.registry.languageOf? file with
      | none => throw unknown
      | some language => next language)
      (match second.registry.languageOf? file with
      | none => throw unknown
      | some language => next language) := by
  rw [answering.languageOf?_eq related]
  cases found : first.registry.languageOf? file with
  | none => exact Action.agree_throw same unknown
  | some language => exact continues language (answering.named_of_languageOf? related found)

theorem agree_loadedTree (granted : readable path) (allowed : named language) {same : α → α → Prop}
    {next : Parsed → Action α}
    (continues : ∀ parsed again, parsed.Same again → Action.Agree kept same (next parsed) (next again)) :
    Action.Agree kept same
      (Service.loadLanguage language >>= fun _ => Service.parseCached path language >>= next)
      (Service.loadLanguage language >>= fun _ => Service.parseCached path language >>= next) := by
  rw [← bind_assoc]
  exact (answering.parseCached granted allowed).bind continues

theorem agree_runQuery (text : String) (same : parsed.Same again) :
    Action.Agree kept Eq (Service.runQuery text parsed.tree) (Service.runQuery text again.tree) := by
  have compiles : Action.Agree kept Eq (Service.compileQuery text) (Service.compileQuery text) := by
    unfold Service.compileQuery
    refine Action.agree_get.bind fun first second related => ?_
    rw [answering.engine_eq related]
    refine (Action.agree_lift (.refl _)).bind_eq fun query => ?_
    refine (Action.agree_modify (answering.compiled text)).bind_eq fun _ => ?_
    exact Action.agree_pure rfl
  unfold Service.runQuery
  refine compiles.bind_eq fun query => ?_
  refine Action.agree_get.bind fun first second related => ?_
  rw [answering.engine_eq related]
  exact Action.agree_pure (first.engine.run_congr query same.shape)

theorem agree_fileTree (file : String) (maxDepth : Option Int) (includeText : Bool) :
    Action.Agree kept Eq (Service.fileTree project file maxDepth includeText)
      (Service.fileTree project file maxDepth includeText) := by
  intro first second related
  unfold Service.fileTree
  rw [Action.run_bind, Action.run_bind, Action.run_onStore, Action.run_onStore,
    answering.filePath_eq related]
  cases accepted : project.filePath first.store file with
  | error fault => exact ⟨.error fault, related⟩
  | ok path =>
      dsimp only
      rw [Action.run_bind, Action.run_bind, Action.run_get, Action.run_get]
      refine (answering.agree_checkAccess related accepted _).bind (fun _ _ granted => ?_) _ _ related
      refine answering.agree_languageOf related fun language allowed => ?_
      refine (answering.parseFile granted allowed).bind fun parsed again same => ?_
      rw [same.root_eq, same.source]
      exact Action.agree_pure rfl

/-! Symbols. -/

theorem agree_symbolsOfKind (language kind query : String) (same : parsed.Same again)
    (hidden : List Analysis.RowRange) :
    Action.Agree kept Eq (Analysis.symbolsOfKind language kind query parsed hidden)
      (Analysis.symbolsOfKind language kind query again hidden) := by
  unfold Analysis.symbolsOfKind
  rw [same.source, same.root_eq]
  refine (answering.agree_runQuery query same).bind_eq fun captures => ?_
  split
  · refine (answering.agree_runQuery Analysis.renamingQuery same).bind_eq fun renamings => ?_
    refine (Action.agree_lift (.refl _)).bind_eq fun modules => ?_
    refine (answering.agree_runQuery Analysis.aliasQuery same).bind_eq fun aliases => ?_
    refine (Action.agree_lift (.refl _)).bind_eq fun renamed => ?_
    exact Action.agree_pure rfl
  · exact Action.agree_pure rfl

theorem agree_addSymbols (language kind query : String) (same : parsed.Same again) (rows : List Analysis.RowRange)
    (table : SymbolTable) :
    Action.Agree kept Eq
      (if kind == "classes" && !rows.isEmpty then pure table
      else do
        let hidden := if kind == "functions" then rows else []
        return table.add kind (← Analysis.symbolsOfKind language kind query parsed hidden))
      (if kind == "classes" && !rows.isEmpty then pure table
      else do
        let hidden := if kind == "functions" then rows else []
        return table.add kind (← Analysis.symbolsOfKind language kind query again hidden)) := by
  split
  · exact Action.agree_pure rfl
  · refine (answering.agree_symbolsOfKind language kind query same _).bind_eq fun symbols => ?_
    exact Action.agree_pure rfl

theorem agree_symbolsIn (language : String) (queries : List (String × String)) (same : parsed.Same again)
    (withoutMethods : Bool) :
    Action.Agree kept Eq (Analysis.symbolsIn language queries parsed withoutMethods)
      (Analysis.symbolsIn language queries again withoutMethods) := by
  unfold Analysis.symbolsIn
  rw [same.source]
  dsimp only
  split
  next query _ =>
    refine (answering.agree_runQuery query same).bind_eq fun captures => ?_
    refine Action.Agree.foldlM ?_ rfl
    rintro table _ ⟨kind, query⟩ rfl
    exact answering.agree_addSymbols language kind query same _ table
  next =>
    refine Action.Agree.foldlM ?_ rfl
    rintro table _ ⟨kind, query⟩ rfl
    exact answering.agree_addSymbols language kind query same _ table

theorem agree_extractSymbols (file : String) (kinds : Option (List String)) (withoutMethods : Bool) :
    Action.Agree kept Eq (Analysis.extractSymbols project file kinds withoutMethods)
      (Analysis.extractSymbols project file kinds withoutMethods) := by
  unfold Analysis.extractSymbols
  refine (answering.agree_allowedPath file).bind ?_
  rintro path _ ⟨rfl, granted⟩
  refine Action.agree_get.bind fun first second related => ?_
  refine answering.agree_languageOf related fun language allowed => ?_
  dsimp only
  split
  · exact Action.agree_throw_bind _ _ _
  · refine Action.Agree.mapFault ?_ _
    refine answering.agree_loadedTree granted allowed fun parsed again same => ?_
    exact answering.agree_symbolsIn language _ same withoutMethods

theorem agree_findDependencies (file : String) :
    Action.Agree kept Eq (Analysis.findDependencies project file) (Analysis.findDependencies project file) := by
  unfold Analysis.findDependencies
  refine (answering.agree_allowedPath file).bind ?_
  rintro path _ ⟨rfl, granted⟩
  refine Action.agree_get.bind fun first second related => ?_
  refine answering.agree_languageOf related fun language allowed => ?_
  split
  · exact Action.agree_throw Eq _
  next query _ =>
    refine Action.Agree.mapFault ?_ _
    refine answering.agree_loadedTree granted allowed fun parsed again same => ?_
    rw [same.source, same.root_eq]
    refine (answering.agree_runQuery query same).bind_eq fun captures => ?_
    dsimp only
    split
    · refine (answering.agree_runQuery Analysis.aliasQuery same).bind_eq fun aliases => ?_
      exact Action.agree_pure rfl
    · exact Action.agree_pure rfl

theorem agree_analyzeComplexity (file : String) :
    Action.Agree kept Eq (Analysis.analyzeComplexity project file)
      (Analysis.analyzeComplexity project file) := by
  unfold Analysis.analyzeComplexity
  refine (answering.agree_allowedPath file).bind ?_
  rintro path _ ⟨rfl, granted⟩
  refine Action.agree_get.bind fun first second related => ?_
  refine answering.agree_languageOf related fun language allowed => ?_
  refine Action.Agree.mapFault ?_ _
  refine answering.agree_loadedTree granted allowed fun parsed again same => ?_
  refine (answering.readLines granted).bind_eq fun lines => ?_
  refine (answering.agree_extractSymbols file _ true).bind_eq fun table => ?_
  rw [same.root_eq]
  exact Action.agree_pure rfl

/-! Queries. -/

theorem agree_queryLanguage (granted : readable path) (allowed : named language) (query : Search.CodeQuery)
    (file : String) :
    Action.Agree kept Eq
      (do
        let found ← Action.mapFault
          (do
            let parsed ← Search.parseForQuery path language
            Service.loadLanguage language
            let captures ← Service.runQuery query.query parsed.tree
            Action.lift do
              let told ← Search.takeWhileBelow query.limit captures.told
              told.mapM (Search.matchOf file parsed.source query.includeText))
          (.querying file)
        Action.lift (Search.cutTo query.limit found))
      (do
        let found ← Action.mapFault
          (do
            let parsed ← Search.parseForQuery path language
            Service.loadLanguage language
            let captures ← Service.runQuery query.query parsed.tree
            Action.lift do
              let told ← Search.takeWhileBelow query.limit captures.told
              told.mapM (Search.matchOf file parsed.source query.includeText))
          (.querying file)
        Action.lift (Search.cutTo query.limit found)) := by
  refine Action.Agree.bind_eq (Action.Agree.mapFault ?_ _) fun found => Action.agree_lift (.refl _)
  refine (answering.parseForQuery granted allowed).bind fun parsed again same => ?_
  rw [same.source]
  refine (answering.loadLanguage allowed).bind_eq fun _ => ?_
  refine (answering.agree_runQuery query.query same).bind_eq fun captures => ?_
  exact Action.agree_lift (.refl _)

theorem agree_queryFile (query : Search.CodeQuery) (file : String) {language : Option String}
    (allNamed : ∀ name ∈ language, named name) :
    Action.Agree kept Eq (Search.queryFile project query file language)
      (Search.queryFile project query file language) := by
  unfold Search.queryFile
  refine (answering.agree_allowedPath file).bind ?_
  rintro path _ ⟨rfl, granted⟩
  dsimp only
  split
  case h_1 | h_2 =>
    refine Action.agree_get.bind fun first second related => ?_
    rw [answering.languageOf?_eq related]
    cases found : first.registry.languageOf? file with
    | none => exact Action.agree_throw_bind _ _ _
    | some detected =>
        have allowed := answering.named_of_languageOf? related found
        exact answering.agree_queryLanguage granted allowed query file
  case h_3 name _ => exact answering.agree_queryLanguage granted (allNamed name rfl) query file

theorem agree_queryFiles (query : Search.CodeQuery) (allowed : named language) (files : List String) :
    ∀ found, Action.Agree kept Eq (Search.queryFiles project query language found files)
      (Search.queryFiles project query language found files) := by
  induction files with
  | nil => exact fun found => Action.agree_pure rfl
  | cons file rest ih =>
      intro found
      have asks : Action.Agree kept Eq
          (do
            let limit ← Action.lift (Search.remaining query.limit found.length)
            Search.queryFile project { query with limit } file (some language))
          (do
            let limit ← Action.lift (Search.remaining query.limit found.length)
            Search.queryFile project { query with limit } file (some language)) := by
        refine (Action.agree_lift (.refl _)).bind_eq fun limit => ?_
        exact answering.agree_queryFile _ file (by simpa using allowed)
      unfold Search.queryFiles
      refine asks.attempt.bind fun result _ alike => ?_
      rw [alike.eq]
      dsimp only
      split
      · exact ih _
      · split
        · exact Action.agree_pure rfl
        · exact ih _

theorem agree_queryProject (query : Search.CodeQuery) {language : Option String}
    (allNamed : ∀ name ∈ language, named name) :
    Action.Agree kept Eq (Search.queryProject project query language)
      (Search.queryProject project query language) := by
  unfold Search.queryProject
  split
  · exact Action.agree_throw Eq _
  · exact Action.agree_throw Eq _
  next name _ =>
    refine Action.agree_get.bind fun first second related => ?_
    rw [LanguageRegistry.extensionsOf, LanguageRegistry.extensionsOf, answering.extensions_eq related,
      answering.files_eq related]
    dsimp only
    split
    · exact Action.agree_throw_bind _ _ _
    · refine (Action.agree_lift (.refl _)).bind_eq fun files => ?_
      refine (answering.agree_queryFiles query (allNamed name rfl) _ _).bind_eq fun found => ?_
      exact Action.agree_lift (.refl _)

theorem agree_queryCode (query : Search.CodeQuery) (file : Option String) {language : Option String}
    (allNamed : ∀ name ∈ language, named name) :
    Action.Agree kept Eq (Search.queryCode project query file language)
      (Search.queryCode project query file language) := by
  cases file with
  | some file => exact answering.agree_queryFile query file allNamed
  | none => exact answering.agree_queryProject query allNamed

end Answering

end Arborist
