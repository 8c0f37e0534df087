import Arborist.Proofs.Service.Twins

/-!
Runs of questions about files.  Between the questions files change, the clock moves, entries are
forgotten and the limits of the cache are set anew.  Whatever happens, the answers are those of the
same run with the cache switched off, and a source that comes with a tree is what the file holds.
-/

namespace Arborist

inductive Question where
  | fileTree (project : Project) (file : String) (maxDepth : Option Int) (includeText : Bool)
  | parseFile (path language : String)
  | parseCached (path language : String)
  | parseForQuery (path language : String)
  | queryCode (project : Project) (query : Search.CodeQuery) (file language : Option String)
  | extractSymbols (project : Project) (file : String) (kinds : Option (List String))
      (withoutMethods : Bool)
  | findDependencies (project : Project) (file : String)
  | analyzeComplexity (project : Project) (file : String)

/-- What a question is answered by; of a tree the number is left out. -/
inductive Answer where
  | value (value : Value)
  | tree (shape : Option Nat × Node) (source : ByteArray)
  | found (items : List Search.QueryMatch)
  | symbols (table : SymbolTable)
  | imports (table : ImportTable)
  | complexity (complexity : Complexity)

def Answer.ofParsed (parsed : Service.Parsed) : Answer := .tree parsed.tree.shape parsed.source

namespace Question

def ask : Question → Action Answer
  | fileTree project file maxDepth includeText => do
      return .value (← Service.fileTree project file maxDepth includeText)
  | parseFile path language => do return .ofParsed (← Service.parseFile (.ofString path) language)
  | parseCached path language => do
      Service.loadLanguage language
      return .ofParsed (← Service.parseCached (.ofString path) language)
  | parseForQuery path language => do
      return .ofParsed (← Search.parseForQuery (.ofString path) language)
  | queryCode project query file language => do
      return .found (← Search.queryCode project query file language)
  | extractSymbols project file kinds withoutMethods => do
      return .symbols (← Analysis.extractSymbols project file kinds withoutMethods)
  | findDependencies project file => do
      return .imports (← Analysis.findDependencies project file)
  | analyzeComplexity project file => do
      return .complexity (← Analysis.analyzeComplexity project file)

/-- The root of the project is a path as paths are read, and no language has a colon in its name. -/
def Plain : Question → Prop
  | fileTree project _ _ _ | extractSymbols project _ _ _ | findDependencies project _
  | analyzeComplexity project _ => project.root.Proper
  | parseFile _ language | parseCached _ language | parseForQuery _ language => ':' ∉ language.toList
  | queryCode project _ _ language =>
      project.root.Proper ∧ ∀ name ∈ language, ':' ∉ name.toList

end Question

inductive Turn where
  | ask (question : Question)
  | change (step : CacheStep)

/-- Changes of what the cache depends on, with limits that are numbers, and the forgetting of
entries; nothing is put into the cache by hand. -/
def CacheStep.Plain : CacheStep → Prop
  | invalidate _ | setEnabled _ | moveClock _ | changeFiles _ => True
  | setMaxSizeMb maxSizeMb => maxSizeMb.toRat?.isSome
  | setTtlSeconds ttlSeconds => ttlSeconds.number?.isSome
  | configure settings =>
      (∀ value, settings.maxSizeMb = .ok value → value.toRat?.isSome) ∧
        ∀ value, settings.ttlSeconds = .ok value → value.number?.isSome
  | get _ _ | put _ _ _ _ | update _ _ _ _ | markModified _ _ | isModified _ _ | evict _ => False

def Turn.Plain : Turn → Prop
  | ask question => question.Plain
  | change step => step.Plain

namespace Service

variable {path : Path} {service : Service} {parsed : Parsed} {language : String}

/-- The answers of a run and the state after it.  The state is prepared for every turn. -/
def answer (prepare : Service → Service) (service : Service) :
    List Turn → List (Except Fault Answer) × Service
  | [] => ([], service)
  | .ask question :: rest =>
      let (result, after) := question.ask.run (prepare service)
      let (results, final) := answer prepare after rest
      (result :: results, final)
  | .change step :: rest => answer prepare (step.apply (prepare service)) rest

def withoutCache (service : Service) : Service :=
  { service with cache := { service.cache with enabled := .bool false } }

def stores (service : Service) (turns : List Turn) (store : Store) : Prop :=
  store = service.store ∨ .change (.changeFiles store) ∈ turns

variable {known : Store → Prop} {cached plain : Service}

theorem Twins.withoutCache (twins : Twins known cached plain) : Twins known cached plain.withoutCache :=
  { twins with off := rfl }

theorem twins_withoutCache (here : known service.store) (empty : service.cache.entries = [])
    (numeric : service.cache.NumericLimits service.settings)
    (plainNames : ∀ pair ∈ service.registry.extensions, ':' ∉ pair.2.toList) :
    Twins known service service.withoutCache where
  store_eq := rfl
  settings_eq := rfl
  engine_eq := rfl
  registry_eq := rfl
  off := rfl
  known := here
  languages := plainNames
  numeric := numeric
  genuine := by simp [empty]

theorem Twins.invalidate (twins : Twins known cached plain) (path : Option Path) :
    Twins known ((CacheStep.invalidate path).apply cached)
      ((CacheStep.invalidate path).apply plain).withoutCache := by
  cases path with
  | none =>
      exact { twins with
        off := rfl
        numeric := { twins.numeric with }
        genuine := fun _ member => absurd member List.not_mem_nil }
  | some path =>
      let gone := cached.cache.entries.filter fun entry => Text.stringOccursIn path.text entry.key
      have fewer := TreeCache.entries_sublist_of_foldl_remove gone cached.cache
      have kept := twins.replaceCache (.foldl_remove gone cached.cache)
        fun entry member => twins.genuine entry (fewer.subset member)
      exact { kept with off := rfl }

theorem Twins.change (twins : Twins known cached plain) {step : CacheStep} (allowed : step.Plain)
    (dated : ∀ store, step = .changeFiles store → known store) :
    Twins known (step.apply cached) (step.apply plain).withoutCache := by
  cases step with
  | invalidate path => exact twins.invalidate path
  | setEnabled enabled => exact { twins with off := rfl, numeric := { twins.numeric with } }
  | setMaxSizeMb maxSizeMb =>
      exact { twins with off := rfl, numeric := { twins.numeric with ownSize := allowed } }
  | setTtlSeconds ttlSeconds =>
      exact { twins with off := rfl, numeric := { twins.numeric with ownTime := allowed } }
  | configure settings =>
      exact { twins with
        off := rfl
        settings_eq := rfl
        numeric := { twins.numeric with size := allowed.1, time := allowed.2 } }
  | moveClock clock => exact { twins with off := rfl }
  | changeFiles store => exact { twins with off := rfl, store_eq := rfl, known := dated store rfl }
  | get path language => exact allowed.elim
  | put path language tree source => exact allowed.elim
  | update path language tree source => exact allowed.elim
  | markModified path language => exact allowed.elim
  | isModified path language => exact allowed.elim
  | evict required => exact allowed.elim

theorem agree_ask (datable : Store.Datable known) {question : Question} (allowed : question.Plain) :
    Action.Agree (Twins known) Eq question.ask question.ask := by
  have tells : ∀ parsed again : Parsed, parsed.Same again →
      Action.Agree (Twins known) Eq (pure (Answer.ofParsed parsed)) (pure (Answer.ofParsed again)) := by
    intro parsed again same
    apply Action.agree_pure
    rw [Answer.ofParsed, Answer.ofParsed, same.shape, same.source]
  cases question with
  | fileTree project file maxDepth includeText =>
      exact ((twins_answering datable allowed).agree_fileTree file maxDepth includeText).bind_eq
        fun _ => Action.agree_pure rfl
  | parseFile path language =>
      exact (agree_parseFile datable (Path.ofString_proper path) allowed).bind tells
  | parseCached path language =>
      rw [Question.ask, ← bind_assoc]
      exact (agree_parseCached datable (Path.ofString_proper path) allowed).bind tells
  | parseForQuery path language =>
      exact (agree_parseForQuery datable (Path.ofString_proper path) allowed).bind tells
  | queryCode project query file language =>
      exact ((twins_answering datable allowed.1).agree_queryCode query file allowed.2).bind_eq
        fun _ => Action.agree_pure rfl
  | extractSymbols project file kinds withoutMethods =>
      exact ((twins_answering datable allowed).agree_extractSymbols file kinds withoutMethods).bind_eq
        fun _ => Action.agree_pure rfl
  | findDependencies project file =>
      exact ((twins_answering datable allowed).agree_findDependencies file).bind_eq
        fun _ => Action.agree_pure rfl
  | analyzeComplexity project file =>
      exact ((twins_answering datable allowed).agree_analyzeComplexity file).bind_eq
        fun _ => Action.agree_pure rfl

theorem Twins.answer (datable : Store.Datable known) (turns : List Turn)
    (allowed : ∀ turn ∈ turns, turn.Plain)
    (dated : ∀ store, .change (.changeFiles store) ∈ turns → known store)
    (twins : Twins known cached plain.withoutCache) :
    (cached.answer id turns).1 = (plain.answer Service.withoutCache turns).1 ∧
      Twins known (cached.answer id turns).2
        (plain.answer Service.withoutCache turns).2.withoutCache := by
  induction turns generalizing cached plain with
  | nil => exact ⟨rfl, twins⟩
  | cons turn rest ih =>
      have allowedRest : ∀ turn ∈ rest, turn.Plain := fun turn member => allowed turn (by simp [member])
      have datedRest : ∀ store, .change (.changeFiles store) ∈ rest → known store :=
        fun store member => dated store (by simp [member])
      have now := allowed turn (by simp)
      cases turn with
      | ask question =>
          obtain ⟨alike, after⟩ := agree_ask datable now cached plain.withoutCache twins
          obtain ⟨same, final⟩ := ih allowedRest datedRest after.withoutCache
          refine ⟨?_, final⟩
          exact congrArg₂ List.cons alike.eq same
      | change step =>
          have changed := twins.change now fun store moved => dated store (by simp [moved])
          exact ih allowedRest datedRest changed

/-! Sources. -/

theorem bytes_of_parseFile (off : service.cache.enabled.isVoid = true)
    (done : ((parseFile path language).run service).1 = .ok parsed) :
    File.readBytes service.store path.text = .ok parsed.source := by
  rw [parseFile_eq, run_throughCache_of_off off, Action.run_mapFault] at done
  cases inner : ((loadParser language >>= fun _ =>
      readSource path >>= keepTree path language).run service).1 with
  | error fault =>
      rw [inner] at done
      cases done
  | ok result =>
      rw [inner] at done
      cases done
      obtain ⟨registry, kept⟩ := ok_of_replaceRegistry_bind (run_loadParser service language) inner
      have read := bytes_of_readAndKeep kept
      exact read

theorem bytes_of_parseCached (off : service.cache.enabled.isVoid = true)
    (done : ((loadLanguage language >>= fun _ => parseCached path language).run service).1 = .ok parsed) :
    File.readBytes service.store path.text = .ok parsed.source := by
  obtain ⟨registry, kept⟩ := ok_of_replaceRegistry_bind (run_loadLanguage service language) done
  have stillOff : { service with registry }.cache.enabled.isVoid = true := off
  rw [parseCached_eq, run_throughCache_of_off stillOff] at kept
  have read := bytes_of_readAndKeep kept
  exact read

theorem bytes_of_parseForQuery (off : service.cache.enabled.isVoid = true)
    (done : ((Search.parseForQuery path language).run service).1 = .ok parsed) :
    File.readBytes service.store path.text = .ok parsed.source := by
  rw [parseForQuery_eq, run_throughCache_of_off off, Action.run_bind, run_readSource] at done
  cases read : File.readBytes service.store path.text with
  | error fault =>
      rw [read] at done
      cases done
  | ok source =>
      rw [read] at done
      obtain ⟨registry, kept⟩ := ok_of_replaceRegistry_bind (run_loadParser service language) done
      rw [source_of_keepTree kept]

theorem Twins.exists_file_of_parse (twins : Twins known cached plain) (proper : path.Proper) {action : Action Parsed}
    (agree : Action.EndAlike (Twins known) Parsed.Same (action.run cached) (action.run plain))
    (reads : ∀ parsed, (action.run plain).1 = .ok parsed → File.readBytes plain.store path.text = .ok parsed.source)
    (done : (action.run cached).1 = .ok parsed) :
    ∃ modified, cached.store.fileAt? path = some (parsed.source, modified) := by
  have alike := agree.alike
  rw [done] at alike
  cases other : (action.run plain).1 with
  | error fault =>
      rw [other] at alike
      cases alike
  | ok again =>
      rw [other] at alike
      cases alike with
      | ok same =>
          rw [same.source, ← twins.store_eq, ← File.readBytes_text_eq_ok_iff proper]
          exact reads again other

/-- Every question of a run, whatever happens between the questions, is answered as in the same run
with the cache switched off; and the source that comes with a tree is what the file then holds. -/
theorem answers_eq_withoutCache (service : Service) (turns : List Turn)
    (empty : service.cache.entries = []) (numeric : service.cache.NumericLimits service.settings)
    (plainNames : ∀ pair ∈ service.registry.extensions, ':' ∉ pair.2.toList)
    (allowed : ∀ turn ∈ turns, turn.Plain) (datable : Store.Datable (service.stores turns)) :
    (service.answer id turns).1 = (service.answer withoutCache turns).1 ∧
      ∀ path language parsed, ':' ∉ language.toList →
        let after := (service.answer id turns).2
        ((parseFile (.ofString path) language).run after).1 = .ok parsed ∨
            ((loadLanguage language >>= fun _ => parseCached (.ofString path) language).run after).1 =
              .ok parsed ∨
            ((Search.parseForQuery (.ofString path) language).run after).1 = .ok parsed →
          ∃ modified, after.store.fileAt? (.ofString path) = some (parsed.source, modified) := by
  have start : Twins (service.stores turns) service service.withoutCache :=
    twins_withoutCache (.inl rfl) empty numeric plainNames
  obtain ⟨same, final⟩ := start.answer datable turns allowed fun _ => .inr
  refine ⟨same, ?_⟩
  intro path language parsed plainName after got
  have proper := Path.ofString_proper path
  rcases got with got | got | got
  · exact final.exists_file_of_parse proper (agree_parseFile datable proper plainName _ _ final)
      (fun _ => bytes_of_parseFile final.off) got
  · exact final.exists_file_of_parse proper (agree_parseCached datable proper plainName _ _ final)
      (fun _ => bytes_of_parseCached final.off) got
  · exact final.exists_file_of_parse proper (agree_parseForQuery datable proper plainName _ _ final)
      (fun _ => bytes_of_parseForQuery final.off) got

def oneFile (content : List UInt8) (modified : Rat) : Store :=
  { root := [("f", .file ⟨content.toArray⟩ (.finite modified))] }

theorem get?_oneFile {content : List UInt8} {modified : Rat} {name : String} {entry : Entry}
    (found : Folder.get? (oneFile content modified).root name = some entry) :
    entry = .file ⟨content.toArray⟩ (.finite modified) := by
  simp only [oneFile, Folder.get?, List.lookup_cons, List.lookup_nil] at found
  split at found
  · exact (Option.some.inj found).symm
  · cases found

theorem fileAt?_oneFile {content : List UInt8} {modified : Rat} {bytes : ByteArray} {time : Binary64}
    (here : (oneFile content modified).fileAt? path = some (bytes, time)) :
    bytes = ⟨content.toArray⟩ ∧ time = .finite modified := by
  obtain ⟨place, located⟩ := Store.fileAt?_eq_some_iff.mp here
  have stands := Store.find?_of_locate located
  unfold Store.find? at stands
  match place with
  | [] => cases stands
  | [name] =>
      cases get?_oneFile stands
      exact ⟨rfl, rfl⟩
  | name :: next :: rest =>
      simp only [Folder.find?] at stands
      split at stands
      next found => cases get?_oneFile found
      next => cases stands

def rewriting : List Turn :=
  [.ask (.parseFile "/f" "python"), .ask (.parseCached "/f" "python"),
    .change (.changeFiles (oneFile [98] 1001)), .ask (.parseFile "/f" "python"),
    .change (.setMaxSizeMb (.int 1)), .change (.moveClock (.finite 2000000)),
    .ask (.parseForQuery "/f" "python"), .change (.changeFiles {}), .change (.invalidate none),
    .ask (.parseFile "/f" "python")]

def sourceOf? : Except Fault Answer → Option (List UInt8)
  | .ok (.tree _ source) => some source.toList
  | _ => none

theorem fileAt?_empty (path : Path) : Store.fileAt? {} path = none := by
  cases here : Store.fileAt? {} path with
  | none => rfl
  | some found =>
      obtain ⟨place, located⟩ := Store.fileAt?_eq_some_iff.mp here
      have stands := Store.find?_of_locate located
      unfold Store.find? at stands
      match place with
      | [] => cases stands
      | [name] => cases stands
      | name :: next :: rest => cases stands

theorem file_of_rewriting {store : Store} (known : stores { store := oneFile [97] 1000 } rewriting store)
    {content : ByteArray} {modified : Binary64} (here : store.fileAt? path = some (content, modified)) :
    (content = ⟨#[97]⟩ ∧ modified = .finite 1000) ∨ (content = ⟨#[98]⟩ ∧ modified = .finite 1001) := by
  have one : store = oneFile [97] 1000 ∨ store = oneFile [98] 1001 ∨ store = {} := by
    simpa [stores, rewriting] using known
  rcases one with rfl | rfl | rfl
  · exact .inl (fileAt?_oneFile here)
  · exact .inr (fileAt?_oneFile here)
  · rw [fileAt?_empty] at here
    cases here

theorem datable_rewriting : Store.Datable (stores { store := oneFile [97] 1000 } rewriting) where
  representable := by
    intro store known text content modified here
    rcases file_of_rewriting known here with ⟨-, rfl⟩ | ⟨-, rfl⟩ <;> decide +kernel
  content_eq := by
    intro first second knownFirst knownSecond text content other modified here there
    rcases file_of_rewriting knownFirst here with ⟨rfl, rfl⟩ | ⟨rfl, rfl⟩ <;>
      rcases file_of_rewriting knownSecond there with ⟨rfl, same⟩ | ⟨rfl, same⟩
    · rfl
    · exact absurd same (by decide)
    · exact absurd same (by decide)
    · rfl

/-- Each parse gives what the file holds at that time, and the last one, with the file gone, fails. -/
theorem rewritten_file_parsed_anew :
    Store.Datable (stores { store := oneFile [97] 1000 } rewriting) ∧
      (∀ turn ∈ rewriting, turn.Plain) ∧
      (answer id { store := oneFile [97] 1000 } rewriting).1.map sourceOf? =
        [some [97], some [97], some [98], some [98], none] := by
  have allowed : ∀ turn ∈ rewriting, turn.Plain := by
    simp [rewriting, Turn.Plain, Question.Plain, CacheStep.Plain, Value.toRat?]
  have numeric : TreeCache.NumericLimits {} {} := by
    refine ⟨?_, rfl, ?_, rfl⟩
    · rintro _ ⟨⟩
      rfl
    · rintro _ ⟨⟩
      rfl
  refine ⟨datable_rewriting, allowed, ?_⟩
  have same := answers_eq_withoutCache { store := oneFile [97] 1000 } rewriting rfl numeric
    (by decide) allowed datable_rewriting
  rw [same.1]
  cbv

end Service

end Arborist
