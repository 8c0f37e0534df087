import Arborist.Analysis.Symbol
import Arborist.Proofs.Service.Answers
import Arborist.Proofs.Service.Engines

/-!
Asking about a file.  First the file is opened: access is granted, its language is told by its name, and
it is parsed.  From then on all is asked of the engine, so that the answer depends on the engine and on
what was parsed, and on nothing else of the service.
-/

namespace Arborist

theorem Engine.capture_congr (engine : Engine) (text : String) {tree other : Tree}
    (same : tree.shape = other.shape) : engine.capture text tree = engine.capture text other := by
  simp only [capture, engine.run_congr _ same]

namespace Action

/-- An action whose result is an answer of the engine, whatever else the service is, and that leaves the
engine as it is. -/
def Asks (action : Action α) (answer : Engine → Except Fault α) : Prop :=
  ∀ service, (action.run service).1 = answer service.engine ∧
    (action.run service).2.engine = service.engine

theorem asks_pure (value : α) : Asks (pure value) fun _ => .ok value := fun _ => ⟨rfl, rfl⟩

theorem asks_lift (result : Except Fault α) : Asks (lift result) fun _ => result := fun _ => ⟨rfl, rfl⟩

theorem Asks.bind {action : Action α} {answer : Engine → Except Fault α} {next : α → Action β}
    {follow : α → Engine → Except Fault β} (asks : Asks action answer)
    (continues : ∀ value, Asks (next value) (follow value)) :
    Asks (action >>= next) fun engine => answer engine >>= fun value => follow value engine := by
  intro service
  obtain ⟨told, kept⟩ := asks service
  rw [run_bind]
  rcases ran : action.run service with ⟨result, after⟩
  rw [ran] at told kept
  dsimp only at told kept ⊢
  rw [← told]
  cases result with
  | error fault => exact ⟨rfl, kept⟩
  | ok value =>
      obtain ⟨toldNext, keptNext⟩ := continues value after
      rw [kept] at toldNext keptNext
      exact ⟨toldNext, keptNext⟩

theorem Asks.foldlM {step : β → ι → Action β} {follow : Engine → β → ι → Except Fault β}
    (asks : ∀ value item, Asks (step value item) fun engine => follow engine value item)
    (items : List ι) :
    ∀ value, Asks (items.foldlM step value) fun engine => items.foldlM (follow engine) value := by
  induction items with
  | nil => exact asks_pure
  | cons item rest ih =>
      intro value
      simp only [List.foldlM_cons]
      exact (asks value item).bind ih

end Action

namespace Service

variable {service : Service} {same : Captures → Captures → Prop} {asked : String → Prop}

theorem asks_runQuery (text : String) (tree : Tree) :
    Action.Asks (runQuery text tree) fun engine => engine.capture text tree := by
  intro service
  unfold runQuery compileQuery Engine.capture
  simp only [Action.run_bind, Action.run_get, Action.run_lift]
  cases service.engine.compile text <;> exact ⟨rfl, rfl⟩

/-! Opening a file. -/

def openAs (path : Path) (language : String) : Action Parsed := do
  loadLanguage language
  parseCached path language

/-- A file of a project is in a language, it may be read, and something was parsed. -/
structure Opens (service : Service) (project : Project) (file language : String) (parsed : Parsed) :
    Prop where
  language_eq : service.registry.languageOf? file = some language
  parses : ∃ path, ((allowedPath project file).run service).1 = .ok path ∧
    ((openAs path language).run service).1 = .ok parsed

theorem Opens.eq {project : Project} {file language other : String} {parsed again : Parsed}
    (opens : service.Opens project file language parsed) (reopens : service.Opens project file other again) :
    language = other ∧ parsed = again := by
  obtain rfl : language = other := Option.some.inj (opens.language_eq.symm.trans reopens.language_eq)
  obtain ⟨path, allowed, done⟩ := opens.parses
  obtain ⟨path', allowed', done'⟩ := reopens.parses
  obtain rfl : path = path' := Except.ok.inj (allowed.symm.trans allowed')
  exact ⟨rfl, Except.ok.inj (done.symm.trans done')⟩

theorem agree_openAs_swapped {left right : Engine} (retold : left.Retold asked same right) (path : Path)
    (language : String) :
    Action.Agree (Swapped left right) Eq (openAs path language) (openAs path language) :=
  (agree_loadLanguage_swapped retold language).bind_eq fun _ => agree_parseCached_swapped retold path language

theorem engine_of_openAs (service : Service) (path : Path) (language : String) :
    ((openAs path language).run service).2.engine = service.engine := by
  have itself := Engine.Retold.refl (fun _ => True) service.engine
  exact (agree_openAs_swapped itself path language service service (swapped service service.engine)).kept.driven

theorem Opens.swap {right : Engine} {project : Project} {file language : String} {parsed : Parsed}
    (opens : service.Opens project file language parsed) (retold : service.engine.Retold asked same right) :
    { service with engine := right }.Opens project file language parsed := by
  obtain ⟨detected, path, allowed, opened⟩ := opens
  rw [run_allowedPath] at allowed
  refine ⟨detected, path, ?_, ?_⟩
  · rw [run_allowedPath]
    exact allowed
  · rw [← (agree_openAs_swapped retold path language _ _ (swapped service right)).alike.eq]
    exact opened

/-- Once a file is open, what is asked is asked of the engine that was there before. -/
theorem opened_eq_ok_iff {path : Path} {language : String} {ask : Parsed → Action α}
    {answer : Parsed → Engine → Except Fault α} (asks : ∀ parsed, Action.Asks (ask parsed) (answer parsed))
    {wrap : Fault → Fault} {value : α} :
    ((Action.mapFault (do
        loadLanguage language
        let parsed ← parseCached path language
        ask parsed) wrap).run service).1 = .ok value ↔
      ∃ parsed, ((openAs path language).run service).1 = .ok parsed ∧
        ((ask parsed).run service).1 = .ok value := by
  have opening : (do
      loadLanguage language
      let parsed ← parseCached path language
      ask parsed) = openAs path language >>= ask := (bind_assoc _ _ _).symm
  rw [opening, Action.run_mapFault, Outcome.mapError_eq_ok_iff, Action.run_bind_eq_ok_iff]
  refine exists_congr fun parsed => and_congr_right fun _ => ?_
  rw [(asks parsed _).1, (asks parsed _).1, engine_of_openAs]

theorem opened_alike {right : Engine} (retold : service.engine.Retold asked same right) {path : Path}
    {language : String} {ask : Parsed → Action α} {answers : α → α → Prop}
    (asks : ∀ parsed, ((openAs path language).run service).1 = .ok parsed →
      Action.Agree (Swapped service.engine right) answers (ask parsed) (ask parsed))
    (wrap : Fault → Fault) :
    let action := Action.mapFault (do
      loadLanguage language
      let parsed ← parseCached path language
      ask parsed) wrap
    Alike answers (action.run service).1 (action.run { service with engine := right }).1 := by
  intro action
  have opening : action = Action.mapFault (openAs path language >>= ask) wrap :=
    congrArg (Action.mapFault · wrap) (bind_assoc _ _ _).symm
  have start : Action.EndAlike (Swapped service.engine right) Eq ((openAs path language).run service)
      ((openAs path language).run { service with engine := right }) :=
    agree_openAs_swapped retold path language _ _ (swapped service right)
  rw [opening, Action.run_mapFault, Action.run_mapFault]
  refine Alike.mapError ?_ wrap
  rw [Action.run_bind, Action.run_bind]
  rcases ends : (openAs path language).run service with ⟨result, after⟩
  rcases finishes : (openAs path language).run { service with engine := right } with ⟨other, final⟩
  rw [ends, finishes] at start
  obtain ⟨alike, related⟩ := start
  cases alike with
  | error fault => exact .error fault
  | ok equal =>
      subst equal
      exact (asks _ (congrArg Prod.fst ends) after final related).alike

end Service

end Arborist
