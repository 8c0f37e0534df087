import Mathlib
import Arborist.Proofs.File.Globbing
import Arborist.Proofs.Project.Policy
import Arborist.Proofs.Search.Truncation
import Arborist.Proofs.Service.Repetition

/-!
Queries with a limit and without.  A limit ends the search in a file and between files, and cuts what was
found; together this comes to taking the first results of all.  Without a limit the files of a language
give their results one after the other.
-/

namespace Arborist

theorem Action.mapFault_bind_lift (action : Action α) (tell : α → Except Fault β) (wrap : Fault → Fault) :
    Action.mapFault (action >>= fun value => Action.lift (tell value)) wrap =
      Action.mapFault action wrap >>= fun value => Action.lift ((tell value).mapError wrap) := by
  refine ext_run fun service => ?_
  rw [run_mapFault, run_bind, run_bind, run_mapFault]
  rcases Action.run action service with ⟨result, after⟩
  cases result <;> rfl

namespace Search

/-! One file. -/

def chooseLanguage (file : String) : Option String → Action String
  | some "" | none => do
    match (← get).registry.languageOf? file with
    | some language => return language
    | none => throw (.queryLanguageUnknown file)
  | some language => return language

def captureAt (query file : String) (path : Path) (language : String) :
    Action (ByteArray × List (Option Node × String)) :=
  Action.mapFault
    (do
      let parsed ← parseForQuery path language
      Service.loadLanguage language
      let captures ← Service.runQuery query parsed.tree
      return (parsed.source, captures.told))
    (.querying file)

def captureFile (project : Project) (query file : String) (language : Option String) :
    Action (ByteArray × List (Option Node × String)) := do
  let path ← Service.allowedPath project file
  captureAt query file path (← chooseLanguage file language)

def tellCaptures (file : String) (includeText : Bool) (limit : Value)
    (captured : ByteArray × List (Option Node × String)) : Except Fault (List QueryMatch) :=
  (do
    let told ← takeWhileBelow limit captured.2
    told.mapM (matchOf file captured.1 includeText)).mapError (.querying file) >>= cutTo limit

theorem captureAt_bind_tell (query : CodeQuery) (file : String) (path : Path) (language : String) :
    (captureAt query.query file path language >>= fun captured =>
        Action.lift (tellCaptures file query.includeText query.limit captured)) =
      (do
        let found ← Action.mapFault
          (do
            let parsed ← parseForQuery path language
            Service.loadLanguage language
            let captures ← Service.runQuery query.query parsed.tree
            Action.lift do
              let told ← takeWhileBelow query.limit captures.told
              told.mapM (matchOf file parsed.source query.includeText))
          (.querying file)
        Action.lift (cutTo query.limit found)) := by
  have parts := Action.mapFault_bind_lift
    (do
      let parsed ← parseForQuery path language
      Service.loadLanguage language
      let captures ← Service.runQuery query.query parsed.tree
      return (parsed.source, captures.told))
    (fun captured => do
      let told ← takeWhileBelow query.limit captured.2
      told.mapM (matchOf file captured.1 query.includeText))
    (.querying file)
  simp only [bind_assoc, pure_bind] at parts
  rw [parts, bind_assoc, captureAt]
  refine bind_congr fun captured => ?_
  unfold tellCaptures
  generalize Except.mapError _ _ = told
  cases told <;> rfl

theorem queryFile_eq (project : Project) (query : CodeQuery) (file : String) (language : Option String) :
    queryFile project query file language =
      captureFile project query.query file language >>= fun captured =>
        Action.lift (tellCaptures file query.includeText query.limit captured) := by
  unfold queryFile captureFile chooseLanguage
  rw [bind_assoc]
  refine bind_congr fun path => ?_
  split
  case h_1 | h_2 =>
    simp only [bind_assoc]
    refine bind_congr fun service => ?_
    cases service.registry.languageOf? file with
    | none => rfl
    | some detected =>
        simp only [pure_bind, captureAt_bind_tell]
  case h_3 => simp only [pure_bind, captureAt_bind_tell]

/-! Captures that all have their nodes. -/

end Search

/-- Whatever tree a query is run on, its captures have their nodes. -/
def Engine.Solid (engine : Engine) (query : String) : Prop :=
  ∀ compiled, engine.compile query = .ok compiled →
    ∀ tree, ∀ captured ∈ (engine.run compiled tree).told, captured.1.isSome = true

structure Driven (engine : Engine) (first second : Service) : Prop where
  same : first = second
  driven : first.engine = engine

namespace Search

variable {service : Service} {language : String}

variable {engine : Engine}

theorem agree_of_engine_kept {action : Action α}
    (keeps : ∀ service, (action.run service).2.engine = service.engine) :
    Action.Agree (Driven engine) Eq action action := by
  rintro first _ ⟨rfl, driven⟩
  exact ⟨.refl _, rfl, (keeps first).trans driven⟩

theorem agree_loadLanguage_driven (language : String) :
    Action.Agree (Driven engine) Eq (Service.loadLanguage language) (Service.loadLanguage language) := by
  refine agree_of_engine_kept fun service => ?_
  rw [Service.run_loadLanguage]
  cases service.registry.load service.engine language <;> rfl

theorem agree_parseForQuery_driven (path : Path) (language : String) :
    Action.Agree (Driven engine) Eq (parseForQuery path language) (parseForQuery path language) := by
  rw [Service.parseForQuery_eq]
  have gets : Action.Agree (Driven engine) Eq (Service.cacheGet path language)
      (Service.cacheGet path language) := by
    refine agree_of_engine_kept fun service => ?_
    obtain ⟨cache, after⟩ := Service.exists_cache_of_cacheGet service path language
    rw [after]
  refine gets.bind_eq fun held => ?_
  cases held with
  | some parsed => exact Action.agree_pure rfl
  | none =>
      refine Action.Agree.bind_eq (agree_of_engine_kept fun service => rfl) fun source => ?_
      refine Action.Agree.bind_eq (agree_of_engine_kept fun service => ?_) fun _ => ?_
      · rw [Service.run_loadParser]
        cases service.registry.loadParser service.engine language <;> rfl
      · refine Action.Agree.bind_eq (agree_of_engine_kept fun service => ?_) fun tree => ?_
        · rw [Service.run_parseSource]
          split <;> rfl
        · refine Action.Agree.bind_eq (agree_of_engine_kept fun service => ?_) fun _ => Action.agree_pure rfl
          rw [Service.run_cachePut]
          split
          next key _ _ =>
            cases service.cache.put service.settings service.clock key tree source <;> rfl
          next => rfl

theorem agree_runQuery_driven {query : String} (solid : engine.Solid query) (tree : Tree) :
    Action.Agree (Driven engine)
      (fun left right => left = right ∧ ∀ captured ∈ left.told, captured.1.isSome = true)
      (Service.runQuery query tree) (Service.runQuery query tree) := by
  rintro first _ ⟨rfl, rfl⟩
  unfold Service.runQuery Service.compileQuery
  simp only [Action.run_bind, Action.run_get, Action.run_lift]
  cases compiles : first.engine.compile query with
  | error fault => exact ⟨.error fault, rfl, rfl⟩
  | ok compiled => exact ⟨.ok ⟨rfl, solid compiled compiles tree⟩, rfl, rfl⟩

theorem agree_captureFile_driven (project : Project) {query : String} (solid : engine.Solid query)
    (file : String) (language : Option String) :
    Action.Agree (Driven engine)
      (fun left right => left = right ∧ ∀ captured ∈ left.2, captured.1.isSome = true)
      (captureFile project query file language) (captureFile project query file language) := by
  have allowed : Action.Agree (Driven engine) Eq (Service.allowedPath project file)
      (Service.allowedPath project file) := by
    unfold Service.allowedPath
    refine Action.Agree.bind_eq (agree_of_engine_kept fun service => rfl) fun service => ?_
    refine Action.Agree.bind_eq (agree_of_engine_kept fun service => rfl) fun path => ?_
    refine Action.Agree.bind_eq (Action.Agree.mapFault (agree_of_engine_kept fun service => rfl) _) fun _ => ?_
    exact Action.agree_pure rfl
  have chosen : Action.Agree (Driven engine) Eq (chooseLanguage file language)
      (chooseLanguage file language) := by
    unfold chooseLanguage
    split
    case h_1 | h_2 =>
      refine Action.Agree.bind_eq (agree_of_engine_kept fun service => rfl) fun service => ?_
      cases service.registry.languageOf? file with
      | none => exact Action.agree_throw Eq _
      | some detected => exact Action.agree_pure rfl
    case h_3 => exact Action.agree_pure rfl
  unfold captureFile captureAt
  refine allowed.bind_eq fun path => chosen.bind_eq fun language => Action.Agree.mapFault ?_ _
  refine (agree_parseForQuery_driven path language).bind_eq fun parsed => ?_
  refine (agree_loadLanguage_driven language).bind_eq fun _ => ?_
  refine (agree_runQuery_driven solid parsed.tree).bind ?_
  rintro captures _ ⟨rfl, whole⟩
  exact Action.agree_pure ⟨rfl, whole⟩

/-! Limits that are whole numbers, negative ones among them. -/

theorem takeWhileBelow_int (most : Int) (items : List α) :
    takeWhileBelow (.int most) items = .ok (items.take most.toNat) := by
  cases items with
  | nil => simp [takeWhileBelow]
  | cons item rest => simp [takeWhileBelow, Value.number?]

theorem cutTo_int_take (most : Int) (items : List α) :
    cutTo (.int most) (items.take most.toNat) = .ok (items.take most.toNat) := by
  unfold cutTo itemRange clampIndex
  by_cases negative : most < 0
  · have none : most.toNat = 0 := by omega
    simp [none]
  · simp [negative, List.take_take]

theorem reaches_integer (count : Nat) (most : Int) :
    reaches count (.int most) = .ok (decide (most ≤ count)) := by
  have compared : (Binary64.finite (most : Rat)).le (.finite ((count : Int) : Rat)) =
      decide (most ≤ count) := by
    change (!decide (((count : Int) : Rat) < (most : Rat))) = _
    rw [← decide_not, decide_eq_decide, Rat.not_lt]
    exact Rat.intCast_le_intCast
  unfold reaches
  simp only [Value.number?, compared]

theorem exists_mapM_matchOf (file : String) (source : ByteArray) (includeText : Bool)
    {told : List (Option Node × String)} (whole : ∀ captured ∈ told, captured.1.isSome = true) :
    ∃ found : List QueryMatch, ∀ count,
      (told.take count).mapM (matchOf file source includeText) = .ok (found.take count) := by
  induction told with
  | nil => exact ⟨[], fun count => by simp⟩
  | cons captured rest ih =>
      obtain ⟨found, tells⟩ := ih fun other member => whole other (List.mem_cons_of_mem captured member)
      obtain ⟨node, present⟩ := Option.isSome_iff_exists.mp (whole captured List.mem_cons_self)
      obtain ⟨first, told⟩ : ∃ first, matchOf file source includeText captured = .ok first := by
        simp [matchOf, present]
      refine ⟨first :: found, fun count => ?_⟩
      cases count with
      | zero => simp
      | succ count => simp [told, tells]

theorem tellCaptures_int (file : String) (includeText : Bool) (most : Int)
    {captured : ByteArray × List (Option Node × String)}
    (whole : ∀ one ∈ captured.2, one.1.isSome = true) :
    tellCaptures file includeText (.int most) captured =
      (tellCaptures file includeText .null captured).map (List.take most.toNat) := by
  obtain ⟨found, tells⟩ := exists_mapM_matchOf file captured.1 includeText whole
  have all : captured.2.mapM (matchOf file captured.1 includeText) = .ok found := by
    have long := tells (captured.2.length + found.length)
    rwa [List.take_of_length_le (by omega), List.take_of_length_le (by omega)] at long
  unfold tellCaptures
  rw [takeWhileBelow_int, takeWhileBelow, Outcome.ok_bind, Outcome.ok_bind, tells, all, Outcome.ok_mapError,
    Outcome.ok_mapError, Outcome.ok_bind, Outcome.ok_bind, cutTo_int_take]
  rfl

theorem run_queryFile_int (project : Project) (query : CodeQuery) (solid : service.engine.Solid query.query)
    (file : String) (language : Option String) (most : Int) :
    (queryFile project { query with limit := .int most } file language).run service =
        ((((queryFile project { query with limit := .null } file language).run service).1).map
          (List.take most.toNat),
        ((queryFile project { query with limit := .null } file language).run service).2) ∧
      ((queryFile project { query with limit := .null } file language).run service).2.engine =
        service.engine := by
  have ends := agree_captureFile_driven project solid file language service service ⟨rfl, rfl⟩
  rw [queryFile_eq, queryFile_eq, Action.run_bind, Action.run_bind]
  dsimp only
  rcases captured : (captureFile project query.query file language).run service with ⟨result, after⟩
  rw [captured] at ends
  obtain ⟨alike, -, driven⟩ := ends
  cases alike with
  | error fault => exact ⟨rfl, driven⟩
  | ok related =>
      dsimp only
      rw [Action.run_lift, Action.run_lift, tellCaptures_int file query.includeText most related.2]
      exact ⟨rfl, driven⟩

/-! Files one after another. -/

/-- What files give in turn, each asked in the state that the ones before it leave; one that cannot be asked
gives nothing. -/
def gather (ask : String → Action (List QueryMatch)) : List String → Service → List QueryMatch
  | [], _ => []
  | file :: rest, service =>
    ((ask file).run service).1.toOption.getD [] ++ gather ask rest ((ask file).run service).2

theorem run_queryFiles_null (project : Project) (query : CodeQuery) (language : String)
    (files : List String) (found : List QueryMatch) (service : Service) :
    ((queryFiles project { query with limit := .null } language found files).run service).1 =
      .ok (found ++ gather (fun file =>
        queryFile project { query with limit := .null } file (some language)) files service) := by
  induction files generalizing found service with
  | nil => simp [queryFiles, gather]
  | cons file rest ih =>
      have next : (do
          let limit ← Action.lift (remaining .null found.length)
          queryFile project { query with limit } file (some language)) =
            queryFile project { query with limit := .null } file (some language) := rfl
      unfold queryFiles gather
      dsimp only
      rw [Action.run_bind, Action.run_attempt, next]
      dsimp only
      rw [ih]
      cases ((queryFile project { query with limit := .null } file (some language)).run service).1 with
      | ok more => simp [Except.toOption]
      | error fault => simp [Except.toOption]

theorem run_queryFiles_cons_int (project : Project) (query : CodeQuery) (solid : service.engine.Solid query.query)
    (language : String) (most : Int) (found : List QueryMatch) (file : String) (rest : List String)
    {result : Except Fault (List QueryMatch)} {after : Service}
    (asked : (queryFile project { query with limit := .null } file (some language)).run service = (result, after))
    {kept : List QueryMatch} (keeps : kept = found ++ (result.toOption.getD []).take (most - found.length).toNat) :
    ((queryFiles project { query with limit := .int most } language found (file :: rest)).run service).1 =
      if most ≤ kept.length then .ok kept
      else ((queryFiles project { query with limit := .int most } language kept rest).run after).1 := by
  have next : (do
      let limit ← Action.lift (remaining (.int most) found.length)
      queryFile project { query with limit } file (some language)) =
        queryFile project { query with limit := .int (most - found.length) } file (some language) := rfl
  have limited := (run_queryFile_int project query solid file (some language) (most - found.length)).1
  have told := reaches_integer kept.length most
  rw [queryFiles, Action.run_bind, Action.run_attempt, next, limited, asked]
  -- Both outcomes of the file leave `kept` as what has been found, which is then compared with the limit.
  by_cases reached : most ≤ kept.length
  · rw [decide_eq_true reached] at told
    cases result with
    | ok more =>
      obtain rfl : kept = found ++ more.take (most - found.length).toNat := keeps
      dsimp only [Except.map]
      rw [told, if_pos reached, Action.run_pure]
    | error fault =>
      obtain rfl : kept = found := by simp [keeps, Except.toOption]
      dsimp only [Except.map]
      rw [told, if_pos reached, Action.run_pure]
  · rw [decide_eq_false reached] at told
    cases result with
    | ok more =>
      obtain rfl : kept = found ++ more.take (most - found.length).toNat := keeps
      dsimp only [Except.map]
      rw [told, if_neg reached]
    | error fault =>
      obtain rfl : kept = found := by simp [keeps, Except.toOption]
      dsimp only [Except.map]
      rw [told, if_neg reached]

/-- As long as the limit has not been reached nothing has been left out, so that the states are those of the
search without a limit. -/
theorem run_queryFiles_int (project : Project) (query : CodeQuery) (language : String) (most : Int)
    (files : List String) (found : List QueryMatch) (service : Service)
    (solid : service.engine.Solid query.query) (below : found = [] ∨ (found.length : Int) < most) :
    ((queryFiles project { query with limit := .int most } language found files).run service).1 =
      .ok ((found ++ gather (fun file =>
        queryFile project { query with limit := .null } file (some language)) files service).take
          most.toNat) := by
  have short : found.length ≤ most.toNat := by
    rcases below with rfl | below
    · exact Nat.zero_le _
    · omega
  induction files generalizing found service with
  | nil => simp [queryFiles, gather, List.take_of_length_le short]
  | cons file rest ih =>
      have sameEngine := (run_queryFile_int project query solid file (some language) most).2
      rcases asked : (queryFile project { query with limit := .null } file (some language)).run service with
        ⟨result, after⟩
      rw [asked] at sameEngine
      have cut : found ++ (result.toOption.getD []).take (most - found.length).toNat =
          (found ++ result.toOption.getD []).take most.toNat := by
        rw [List.take_append, List.take_of_length_le short]
        congr 2
        omega
      rw [run_queryFiles_cons_int project query solid language most found file rest asked rfl, gather, asked,
        ← List.append_assoc, cut]
      dsimp only
      split
      next reached =>
        rw [List.length_take] at reached
        have enough : most.toNat ≤ (found ++ result.toOption.getD []).length := by omega
        rw [List.take_append_of_le_length enough]
      next notReached =>
        rw [List.length_take] at notReached
        have whole : (found ++ result.toOption.getD []).take most.toNat = found ++ result.toOption.getD [] :=
          List.take_of_length_le (by omega)
        rw [whole]
        refine ih _ after (sameEngine ▸ solid) (.inr ?_) ?_
        · omega
        · omega

/-! All files of a language. -/

/-- The files of a language in a project, extension by extension in the order of the map, and for each of them
in the order of the directories. -/
def languageFiles (service : Service) (project : Project) (language : String) : Except Fault (List String) :=
  let extensions := service.registry.extensionsOf language
  if extensions.isEmpty then .error (.noExtensions language)
  else (extensions.mapM (filesWithExtension service.store project)).map List.flatten

theorem run_queryProject (project : Project) (query : CodeQuery) (nonempty : language ≠ "") (service : Service) :
    ((queryProject project query (some language)).run service).1 =
      languageFiles service project language >>= fun files =>
        ((queryFiles project query language [] files).run service).1 >>= cutTo query.limit := by
  have chosen : queryProject project query (some language) = (do
      let service ← get
      let extensions := service.registry.extensionsOf language
      if extensions.isEmpty then throw (.noExtensions language)
      let files ← Action.lift (extensions.mapM (filesWithExtension service.store project))
      let found ← queryFiles project query language [] files.flatten
      Action.lift (cutTo query.limit found)) := by
    unfold queryProject
    split
    next same => exact absurd (Option.some.inj same) nonempty
    next same => cases same
    next same =>
      cases same
      rfl
  rw [chosen, Action.run_bind, Action.run_get]
  unfold languageFiles
  dsimp only
  split
  · rfl
  · rw [Action.run_bind, Action.run_lift]
    cases (service.registry.extensionsOf language).mapM (filesWithExtension service.store project) with
    | error fault => rfl
    | ok files =>
        dsimp only
        rw [Action.run_bind]
        change _ = ((queryFiles project query language [] files.flatten).run service).1 >>= cutTo query.limit
        rcases (queryFiles project query language [] files.flatten).run service with ⟨result, after⟩
        cases result <;> rfl

theorem queryProject_null (project : Project) (query : CodeQuery) (nonempty : language ≠ "") (service : Service) :
    ((queryProject project { query with limit := .null } (some language)).run service).1 =
      (languageFiles service project language).map fun files => gather (fun file =>
        queryFile project { query with limit := .null } file (some language)) files service := by
  rw [run_queryProject _ _ nonempty]
  cases languageFiles service project language with
  | error fault => rfl
  | ok files =>
      rw [Outcome.ok_bind, run_queryFiles_null]
      rfl

theorem queryProject_int (project : Project) (query : CodeQuery) (solid : service.engine.Solid query.query)
    (language : Option String) (most : Int) :
    ((queryProject project { query with limit := .int most } language).run service).1 =
      ((queryProject project { query with limit := .null } language).run service).1.map
        (List.take most.toNat) := by
  by_cases given : ∃ name, language = some name ∧ name ≠ ""
  · obtain ⟨name, rfl, nonempty⟩ := given
    rw [queryProject_null _ _ nonempty, run_queryProject _ _ nonempty]
    cases languageFiles service project name with
    | error fault => rfl
    | ok files =>
        rw [Outcome.ok_bind, run_queryFiles_int _ _ _ _ _ _ _ solid (.inl rfl), Outcome.ok_bind, cutTo_int_take]
        rfl
  · have missing : language = none ∨ language = some "" := by
      cases language with
      | none => exact .inl rfl
      | some name => exact .inr (congrArg some (not_not.mp fun nonempty => given ⟨name, rfl, nonempty⟩))
    rcases missing with rfl | rfl <;> rfl

/-! Asking in one state. -/

theorem gather_congr {kept : Service → Service → Prop} {ask : String → Action (List QueryMatch)}
    (agree : ∀ file, Action.Agree kept Eq (ask file) (ask file)) (files : List String)
    {first second : Service} (related : kept first second) :
    gather ask files first = gather ask files second := by
  induction files generalizing first second with
  | nil => rfl
  | cons file rest ih =>
      obtain ⟨alike, after⟩ := agree file first second related
      rw [gather, gather, alike.eq, ih after]

theorem gather_eq_flatMap {start : Service} {ask : String → Action (List QueryMatch)}
    (agree : ∀ file, Action.Agree (Service.BothLike start) Eq (ask file) (ask file)) (files : List String)
    (self : Service.Like start start) (like : Service.Like start service) :
    gather ask files service = files.flatMap fun file => ((ask file).run start).1.toOption.getD [] := by
  induction files generalizing service with
  | nil => rfl
  | cons file rest ih =>
      obtain ⟨alike, after, -⟩ := agree file service start ⟨like, self⟩
      rw [gather, alike.eq, ih after, List.flatMap_cons]

/-- With a faithful cache it does not matter that files are asked one after another. -/
theorem gather_of_faithful (faithful : service.Faithful) {project : Project} (rootProper : project.root.Proper)
    (query : CodeQuery) (plainName : ':' ∉ language.toList) (files : List String) :
    gather (fun file => queryFile project query file (some language)) files service =
      files.flatMap fun file =>
        ((queryFile project query file (some language)).run service).1.toOption.getD [] := by
  obtain ⟨known, datable, twins⟩ := faithful
  have onTwins : ∀ file, Action.Agree (Service.Twins known) Eq
      (queryFile project query file (some language)) (queryFile project query file (some language)) :=
    fun file => (Service.twins_answering datable rootProper).agree_queryFile query file
      (by simpa using plainName)
  have onLike : ∀ file, Action.Agree (Service.BothLike service.withoutCache) Eq
      (queryFile project query file (some language)) (queryFile project query file (some language)) :=
    fun file => (Service.answering_like _ project).agree_queryFile query file fun _ _ => trivial
  have self := Service.like_withoutCache service
  rw [gather_congr onTwins files twins, gather_eq_flatMap onLike files self self]
  refine List.flatMap_congr fun file _ => ?_
  rw [(onTwins file service service.withoutCache twins).alike.eq]

def pairRecord : TreeRecord where
  source := ⟨#[120]⟩
  root := default
  captures := [("q", .list [{ node := some default, name := "m" }, { node := some default, name := "n" }])]

def pairService : Service where
  store := { root := [("p", .directory [("a.py", .file ⟨#[120]⟩ (.finite 0)),
    ("b.py", .file ⟨#[120]⟩ (.finite 0)), ("c.PY", .file ⟨#[120]⟩ (.finite 0))])] }
  engine := .recorded { trees := [pairRecord] }
  cache := { enabled := .bool false }

def pairProject : Project := { name := "p", root := .absolute ["p"] }

def pairMatch (file capture : String) : QueryMatch :=
  ⟨file, capture, (default : Node).start, (default : Node).stop, some ((default : Node).text ⟨#[120]⟩)⟩

theorem compile_pair : pairService.engine.compile "q" = .ok (.recorded "q") := by
  cbv

theorem solid_pair : pairService.engine.Solid "q" := by
  intro compiled compiles tree
  rw [compile_pair] at compiles
  cases compiles
  match tree with
  | ⟨_, none, _⟩ => simp [pairService, Engine.run, Captures.told, Captures.listed]
  | ⟨_, some 0, _⟩ =>
      intro one member
      fin_cases member <;> rfl
  | ⟨_, some (_ + 1), _⟩ => simp [pairService, Engine.run, Captures.told, Captures.listed]

theorem faithful_pair : pairService.Faithful := by
  have one : ∀ {path content modified}, pairService.store.fileAt? path = some (content, modified) →
      content = ⟨#[120]⟩ ∧ modified = .finite 0 := by
    intro path content modified here
    obtain ⟨name, member⟩ := Store.exists_name_of_fileAt? here
    have among : (name = "a.py" ∧ content = ⟨#[120]⟩ ∧ modified = .finite 0) ∨
        (name = "b.py" ∧ content = ⟨#[120]⟩ ∧ modified = .finite 0) ∨
          name = "c.PY" ∧ content = ⟨#[120]⟩ ∧ modified = .finite 0 := by
      simpa [pairService, entriesWithin, Entry.within] using member
    rcases among with ⟨-, same⟩ | ⟨-, same⟩ | ⟨-, same⟩
    · exact same
    · exact same
    · exact same
  have datable : Store.Datable (· = pairService.store) := by
    constructor
    · rintro _ rfl text content modified here
      rw [(one here).2]
      decide +kernel
    · rintro _ _ rfl rfl text content other modified here there
      rw [(one here).1, (one there).1]
  refine ⟨_, datable, Service.twins_withoutCache rfl rfl ⟨?_, rfl, ?_, rfl⟩ (by decide)⟩
  · rintro _ ⟨⟩
    rfl
  · rintro _ ⟨⟩
    rfl

theorem languageFiles_pair : languageFiles pairService pairProject "python" = .ok ["a.py", "b.py"] := by
  have below : File.pathsBelow pairService.store pairProject.root =
      [.absolute ["p", "a.py"], .absolute ["p", "b.py"], .absolute ["p", "c.PY"]] := by
    cbv
  have listed : pairService.registry.extensionsOf "python" = ["py"] := by decide
  have globbed : filesWithExtension pairService.store pairProject "py" = .ok ["a.py", "b.py"] := by
    unfold filesWithExtension
    rw [File.glob_ending (by decide), below]
    cbv
  unfold languageFiles
  rw [listed]
  simp [globbed, Except.map]

section

variable {file : String} (listed : file = "a.py" ∨ file = "b.py" ∨ file = "c.PY")

include listed

theorem fileAt?_pair : pairService.store.fileAt? (.absolute ["p", file]) = some (⟨#[120]⟩, .finite 0) := by
  rcases listed with rfl | rfl | rfl <;> cbv

theorem allowedPath_pair : (Service.allowedPath pairProject file).run pairService =
    (.ok (.absolute ["p", file]), pairService) := by
  have accepted : pairProject.filePath pairService.store file = .ok (.absolute ["p", file]) := by
    rcases listed with rfl | rfl | rfl <;> cbv
  have resolved : pairService.store.resolve (.ofString (Path.absolute ["p", file]).text) =
      .ok (.absolute ["p", file]) := by
    rcases listed with rfl | rfl | rfl <;> cbv
  have resolvedRoot : pairService.store.resolve (.ofString pairProject.root.text) = .ok (.absolute ["p"]) := by
    cbv
  have size : Project.checkSize pairService.store pairService.settings.maxFileSizeMb (.absolute ["p", file]) =
      .ok () := by
    rw [Project.checkSize_eq_ok_iff, fileAt?_pair listed]
    rintro _ _ ⟨⟩
    have fits : (Binary64.finite (5 : Int)).lt (Project.megabytes (ByteArray.size ⟨#[120]⟩)) = false := by
      decide +kernel
    exact ⟨_, rfl, congrArg Except.ok fits⟩
  have granted : Project.checkAccess pairService.store pairService.settings (Path.absolute ["p", file]).text
      pairProject.root.text = .ok () := by
    rw [Project.checkAccess_of_resolved resolved resolvedRoot]
    have inside : (Path.absolute ["p"]).text.toList.isPrefixOf
        (Path.absolute ["p", file]).text.toList = true := by
      rcases listed with rfl | rfl | rfl <;> decide
    rw [if_pos inside]
    rcases listed with rfl | rfl | rfl
    · exact size
    · exact size
    · exact size
  unfold Service.allowedPath
  simp only [Action.run_bind, Action.run_get, Action.run_lift, accepted, Action.run_mapFault, granted]
  rfl

theorem queryFile_pair :
    ((queryFile pairProject { query := "q", limit := .null } file (some "python")).run pairService).1 =
      .ok [pairMatch file "m", pairMatch file "n"] := by
  have read : File.readBytes pairService.store (Path.absolute ["p", file]).text = .ok ⟨#[120]⟩ := by
    have proper : (Path.absolute ["p", file]).Proper := by
      rcases listed with rfl | rfl | rfl <;> decide
    exact (File.readBytes_text_eq_ok_iff proper).mpr ⟨.finite 0, fileAt?_pair listed⟩
  obtain ⟨log, parses⟩ : ∃ log, (parseForQuery (.absolute ["p", file]) "python").run pairService =
      (.ok ⟨⟨0, some 0, default⟩, ⟨#[120]⟩⟩, { pairService with engineLog := log }) := by
    rw [Service.parseForQuery_eq, Service.run_throughCache_of_off rfl, Action.run_bind, Service.run_readSource,
      read]
    exact ⟨_, rfl⟩
  have loads : (Service.loadLanguage "python").run { pairService with engineLog := log } =
      (.ok (), { pairService with engineLog := log, registry := { loaded := ["python"] } }) := by
    rw [Service.run_loadLanguage]
    rfl
  obtain ⟨after, runs⟩ : ∃ after, (Service.runQuery "q" ⟨0, some 0, default⟩).run
      { pairService with engineLog := log, registry := { loaded := ["python"] } } =
        (.ok (.list [{ node := some default, name := "m" }, { node := some default, name := "n" }]),
          after) := by
    simp only [Service.runQuery, Service.compileQuery, Action.run_bind, Action.run_get, Action.run_lift,
      compile_pair, Action.run_modify, Action.run_pure]
    exact ⟨_, rfl⟩
  have chosen : chooseLanguage file (some "python") = pure "python" := by
    unfold chooseLanguage
    rfl
  rw [queryFile_eq]
  simp only [captureFile, captureAt, chosen, pure_bind, Action.run_bind, Action.run_mapFault,
    allowedPath_pair listed, parses, loads, runs, Action.run_pure, Action.run_lift]
  rfl

end

end Search

end Arborist
