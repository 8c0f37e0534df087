import Arborist.Proofs.Service.Keeping
import Arborist.Server.Tool

/-!
The switch of the cache.  It stands in the settings, which are told, and in the cache, which acts on both.
Requests move the two together, except for the diagnosis of a document, which moves the one in the
settings alone.
-/

namespace Arborist

def Settings.turnsOn (settings : Settings) : Bool :=
  match settings.cache with
  | .fields fields => !fields.enabled.isVoid
  | .other _ => false

end Arborist

namespace Arborist.Service

variable {service : Service}

/-- What the diagnosis of a document takes over. -/
def diagnosed? (store : Store) (path : String) : Option Settings :=
  if store.fileExists (Path.ofString path) then
    match Settings.readText store (Path.ofString path).text with
    | .error _ => none
    | .ok content =>
      match Yaml.load? content with
      | some (.map entries) => (Settings.ofEntries entries).toOption
      | _ => none
  else none

theorem sizesOf_eq_ok {settings : Settings} (sectioned : settings.Sectioned) :
    ∃ sizes, sizesOf settings = .ok sizes := by
  obtain ⟨⟨cache, onCache⟩, ⟨security, onSecurity⟩, language, onLanguage⟩ := sectioned
  simp [sizesOf, Settings.maxSizeMb, Settings.maxFileSizeMb, Settings.defaultMaxDepth, Part.field, onCache,
    onSecurity, onLanguage]

theorem run_tryDocument (sectioned : service.settings.Sectioned) (diagnosis : Diagnosis)
    (entries : List (Value × Value)) :
    (Action.run (tryDocument diagnosis entries) service).2 =
      ((Settings.ofEntries entries).toOption.elim service
        fun document => { service with settings := document.taken }) := by
  unfold tryDocument
  rw [Action.run_bind_of_ok (Action.run_get service)]
  obtain ⟨before, told⟩ := sizesOf_eq_ok sectioned
  simp only [told]
  cases made : Settings.ofEntries entries with
  | error fault => rfl
  | ok document =>
      have regular := Settings.regular_of_ofEntries made
      obtain ⟨sizes, sized⟩ := sizesOf_eq_ok regular.sectioned
      obtain ⟨after, retold⟩ := sizesOf_eq_ok regular.taken.sectioned
      simp only [sized, Settings.adopt_eq_taken sectioned regular, Action.run_bind, Action.run_modify, retold]
      rfl

theorem regular_of_diagnosed? {store : Store} {path : String} {document : Settings}
    (found : diagnosed? store path = some document) : document.Regular := by
  unfold diagnosed? at found
  split at found
  · split at found
    · cases found
    · split at found
      · exact Settings.regular_of_toOption found
      · cases found
  · cases found

theorem run_diagnoseSettings (sectioned : service.settings.Sectioned) (path : String) :
    (Action.run (diagnoseSettings path) service).2 =
      ((diagnosed? service.store path).elim service
        fun document => { service with settings := document.taken }) := by
  unfold diagnoseSettings diagnosed?
  rw [Action.run_bind_of_ok (Action.run_get service)]
  dsimp only
  cases service.store.fileExists (Path.ofString path) with
  | false => rfl
  | true =>
      simp only [Bool.not_true, Bool.false_eq_true, if_false, if_true]
      cases Settings.readText service.store (Path.ofString path).text with
      | error fault => rfl
      | ok content =>
          dsimp only
          cases Yaml.load? content with
          | none => rfl
          | some data =>
              cases data with
              | map entries => exact run_tryDocument sectioned _ entries
              | _ => rfl

def SwitchFollowed (service : Service) : Prop :=
  service.settings.turnsOn = true → service.cache.enabled.isVoid = false

theorem SwitchFollowed.of_eq {before after : Service} (followed : before.SwitchFollowed)
    (settings : after.settings.cache = before.settings.cache)
    (enabled : after.cache.enabled = before.cache.enabled) : after.SwitchFollowed := by
  rw [SwitchFollowed, Settings.turnsOn, settings, enabled]
  exact followed

theorem SwitchFollowed.withDocument (followed : service.SwitchFollowed) (path : String) :
    (service.withDocument path).SwitchFollowed := by
  unfold Service.withDocument
  generalize Settings.document? service.store (Path.ofString path).text = read
  cases read with
  | none => exact followed
  | some document =>
      dsimp only
      cases adopted : service.settings.adopt document with
      | error fault => exact followed
      | ok settings =>
          obtain ⟨fields, onCache⟩ := Settings.exists_cache_of_adopt adopted
          obtain ⟨logging, same⟩ := exists_logging_levelled
            { service with settings, cache := service.cache.following settings } settings.logLevel
          dsimp only
          rw [same]
          simp [SwitchFollowed, Settings.turnsOn, TreeCache.following, onCache]

theorem switchFollowed_switched (service : Service) (enabled : Value) :
    (service.switched enabled).SwitchFollowed := by
  cases onCache : service.settings.cache <;>
    simp [SwitchFollowed, Settings.turnsOn, switched, Settings.assignField, onCache, Part.change]

theorem SwitchFollowed.prepared (followed : service.SwitchFollowed) (changes : Changes) (document : String) :
    (service.prepared changes document).SwitchFollowed := by
  unfold Service.prepared
  generalize onLoaded : (if !changes.document.isVoid then service.withDocument document else service) = loaded
  have first : loaded.SwitchFollowed := by
    rw [← onLoaded]
    split
    · exact followed.withDocument document
    · exact followed
  dsimp only
  generalize onSet :
    (if isAsked changes.cacheEnabled then loaded.switched changes.cacheEnabled else loaded) = set
  have second : set.SwitchFollowed := by
    rw [← onSet]
    split
    · exact switchFollowed_switched loaded _
    · exact first
  split
  · exact second.of_eq rfl rfl
  · exact second

theorem SwitchFollowed.asked (followed : service.SwitchFollowed) (changes : Changes) (document : String) :
    (service.asked changes document).SwitchFollowed := by
  unfold Service.asked
  dsimp only
  split
  · exact (followed.prepared changes document).of_eq rfl rfl
  · exact followed.prepared changes document

theorem parts_asked (service : Service) (changes : Changes) (document : String) :
    (service.asked changes document).settings.parts = service.settings.parts := by
  rw [← parts_prepared service changes document]
  unfold Service.asked
  dsimp only
  split <;> rfl

end Arborist.Service

namespace Arborist.Server

open Service (Keeps keeps_pure keeps_throw keeps_get keeps_lift keeps_onStore keeps_findProject)

namespace Tool

def LeavesSettings : Tool → Prop
  | .configure _ | .diagnose _ => False
  | _ => True

theorem keeps_checkAvailable (language : String) : Keeps (checkAvailable language) := by
  refine (Service.keeps_loadLanguage language).attempt.bind fun result => ?_
  cases result with
  | ok _ => exact keeps_pure _
  | error fault => exact keeps_pure _

theorem keeps_treeTo (project : Project) (path : String) (depth : Value) (includeText : Bool) :
    Keeps (treeTo project path depth includeText) := by
  unfold treeTo
  split
  · exact Service.keeps_fileTree project path _ includeText
  · exact (Service.keeps_fileTree project path none includeText).bind fun _ => keeps_throw _

theorem keeps_nodeAt (project : Project) (path : String) (position : Position) :
    Keeps (nodeAt project path position) := by
  unfold nodeAt
  refine (keeps_onStore _).bind fun file => keeps_get.bind fun service => ?_
  split
  · exact keeps_throw _
  next language _ =>
    refine (Service.keeps_parseFile file language).bind fun parsed => ?_
    split
    · exact keeps_pure _
    · exact keeps_pure _

theorem keeps_searchProject (project : String) (query : Search.TextQuery) :
    Keeps (searchProject project query) := by
  refine (keeps_findProject project).bind fun found => keeps_get.bind fun service => ?_
  exact (keeps_lift _).bind fun _ => keeps_pure _

theorem keeps_queryProject (project query : String) (file language : Option String) (limit : Value) :
    Keeps (queryProject project query file language limit) := by
  refine (keeps_findProject project).bind fun found => ?_
  exact (Service.keeps_queryCode found _ file language).bind fun _ => keeps_pure _

theorem keeps_usages (project symbol : String) (file language : Option String) :
    Keeps (usages project symbol file language) := by
  unfold usages
  refine keeps_get.bind fun service => ?_
  dsimp only
  split
  · split
    · exact keeps_throw _
    · exact keeps_queryProject project _ file _ _
  · exact keeps_throw _

theorem keeps_clearCacheFor (project file : Option String) : Keeps (clearCacheFor project file) := by
  unfold clearCacheFor
  dsimp only
  split
  next project file _ _ =>
    refine (keeps_findProject project).bind fun found => (keeps_onStore _).bind fun path => ?_
    exact (Service.keeps_cacheInvalidate (some path)).bind fun _ => keeps_pure _
  · exact (Service.keeps_cacheInvalidate none).bind fun _ => keeps_pure _
  · exact (Service.keeps_cacheInvalidate none).bind fun _ => keeps_pure _

theorem keeps_run {tool : Tool} (leaves : tool.LeavesSettings) : Keeps tool.run := by
  have withProject {α β : Type} (name : String) {ask : Project → Action α}
      (keeps : ∀ project, Keeps (ask project)) (tell : α → β) : Keeps (do return tell (← ask (← Service.findProject name))) :=
    (keeps_findProject name).bind fun project => (keeps project).bind fun _ => keeps_pure _
  cases tool with
  | configure changes => exact leaves.elim
  | diagnose path => exact leaves.elim
  | registerProject path name description => exact Service.keeps_registerProject path name description
  | listProjects => exact keeps_get.bind fun _ => keeps_pure _
  | removeProject name => exact (Service.keeps_removeProject name).mapFault _
  | listLanguages => exact keeps_get.bind fun _ => keeps_pure _
  | checkLanguage language => exact keeps_checkAvailable language
  | listFiles name pattern depth extensions =>
      exact withProject name (fun project => Service.keeps_listFiles project pattern depth extensions) _
  | getFile name path count start =>
      exact withProject name (fun project => Service.keeps_fileContent project path false count start) _
  | getFileInfo name path => exact withProject name (fun project => Service.keeps_describeFile project path) _
  | getTree name path depth includeText =>
      refine keeps_get.bind fun _ => (keeps_lift _).bind fun depth => ?_
      exact (keeps_findProject name).bind fun project => keeps_treeTo project path depth includeText
  | getNodeAt name path position =>
      exact (keeps_findProject name).bind fun project => keeps_nodeAt project path position
  | findText name query => exact keeps_get.bind fun _ => keeps_searchProject name _
  | runQuery name query file language limit =>
      exact keeps_get.bind fun _ => keeps_queryProject name query file language _
  | getTemplate language name =>
      rw [run]
      split
      · exact keeps_pure _
      · exact keeps_throw _
  | listTemplates language => exact keeps_pure _
  | buildQuery language patterns combine => exact keeps_pure _
  | adaptQuery query source target => exact keeps_pure _
  | describeNodeKinds language => exact keeps_pure _
  | getSymbols name file kinds =>
      exact withProject name (fun project => Service.keeps_extractSymbols project file kinds false) _
  | analyzeProject name depth =>
      exact withProject name (fun project => Service.keeps_overview project depth {})
        fun told => told.1.toValue
  | getDependencies name file =>
      exact withProject name (fun project => Service.keeps_findDependencies project file) _
  | analyzeComplexity name file =>
      exact withProject name (fun project => Service.keeps_analyzeComplexity project file) _
  | findSimilar name snippet language limit => exact keeps_searchProject name _
  | findUsage name symbol file language => exact keeps_usages name symbol file language
  | clearCache name file => exact keeps_clearCacheFor name file

end Tool

/-- The switch of the cache that the service tells of. -/
def reportedSwitch (service : Service) : Option Value :=
  ((Action.run (Tool.run (.configure {})) service).1.toOption.bind (·.get? "cache")).bind (·.get? "enabled")

/-- The cache acts as the service tells: both are on, or both are off. -/
def SwitchesAgree (service : Service) : Prop :=
  ∃ told, reportedSwitch service = some told ∧ service.cache.isEnabled service.settings = !told.isVoid

theorem reportedSwitch_eq {service : Service} (sectioned : service.settings.Sectioned)
    {fields : CacheSettings} (onCache : service.settings.cache = .fields fields) :
    reportedSwitch service = some fields.enabled := by
  have asks : Action.run (Tool.run (.configure {})) service = (service.settings.summary, service) := by
    rw [Tool.run, Service.configureTool,
      Action.run_bind_of_ok (Service.run_checkSizes_of_sectioned sectioned)]
    rfl
  obtain ⟨-, ⟨security, onSecurity⟩, language, onLanguage⟩ := sectioned
  rw [reportedSwitch, asks, Service.summary_eq_ok onCache onSecurity onLanguage]
  rfl

theorem switchesAgree_iff {service : Service} (sectioned : service.settings.Sectioned) :
    SwitchesAgree service ↔ service.SwitchFollowed := by
  obtain ⟨fields, onCache⟩ := sectioned.cache
  have acts : service.cache.isEnabled service.settings =
      (!service.cache.enabled.isVoid && !fields.enabled.isVoid) := by
    simp [TreeCache.isEnabled, Settings.cacheEnabled, onCache, Part.field]
  simp only [SwitchesAgree, reportedSwitch_eq sectioned onCache, acts, Option.some.injEq, exists_eq_left',
    Service.SwitchFollowed, Settings.turnsOn, onCache]
  cases service.cache.enabled.isVoid <;> cases fields.enabled.isVoid <;> simp

inductive Event where
  | call (tool : Tool)
  | changeFiles (store : Store)
  | moveClock (clock : Binary64)

namespace Event

variable {service : Service}

def apply (service : Service) : Event → Service
  | .call tool => (Action.run tool.run service).2
  | .changeFiles store => { service with store }
  | .moveClock clock => { service with clock }

/-- The diagnosis of a document that has the cache switched on, while the cache itself is off. -/
def Divides (service : Service) : Event → Prop
  | .call (.diagnose path) => service.cache.enabled.isVoid = true ∧
      (Service.diagnosed? service.store path).any Settings.turnsOn = true
  | _ => False

/-- What an event can do to the settings and the cache. -/
theorem apply_cases (sectioned : service.settings.Sectioned) (event : Event) :
    (¬ event.Divides service ∧ Service.Unchanged service (event.apply service)) ∨
    (¬ event.Divides service ∧ ∃ changes document logging,
      event.apply service = { service.asked changes document with logging }) ∨
    ∃ path, event = .call (.diagnose path) ∧ event.apply service =
      (Service.diagnosed? service.store path).elim service
        fun document => { service with settings := document.taken } := by
  cases event with
  | changeFiles store => exact .inl ⟨id, rfl, .refl _⟩
  | moveClock clock => exact .inl ⟨id, rfl, .refl _⟩
  | call tool =>
      cases tool with
      | configure changes =>
          obtain ⟨result, logging, ran, -⟩ := Service.makes_configureTool changes sectioned
          exact .inr (.inl ⟨id, changes, _, logging, congrArg Prod.snd ran⟩)
      | diagnose path =>
          refine .inr (.inr ⟨path, rfl, ?_⟩)
          rw [apply, Tool.run, bind_pure_comp, Action.run_map]
          exact Service.run_diagnoseSettings sectioned path
      | _ => exact .inl ⟨id, Tool.keeps_run (by trivial) service⟩

theorem sectioned_apply (sectioned : service.settings.Sectioned) (event : Event) :
    (event.apply service).settings.Sectioned := by
  rcases apply_cases sectioned event with ⟨-, same⟩ | ⟨-, changes, document, logging, same⟩ | ⟨path, -, same⟩
  · rw [same.settings]
    exact sectioned
  · rw [same, Settings.sectioned_iff_parts]
    exact (Service.parts_asked service changes document).trans (Settings.sectioned_iff_parts.mp sectioned)
  · rw [same]
    cases found : Service.diagnosed? service.store path with
    | none => exact sectioned
    | some document => exact (Service.regular_of_diagnosed? found).taken.sectioned

theorem followed_apply_iff (sectioned : service.settings.Sectioned) (followed : service.SwitchFollowed)
    (event : Event) :
    (event.apply service).SwitchFollowed ↔ ¬ event.Divides service := by
  rcases apply_cases sectioned event with
    ⟨together, same⟩ | ⟨together, changes, document, logging, same⟩ | ⟨path, rfl, same⟩
  · refine iff_of_true (followed.of_eq ?_ same.cache.enabled) together
    rw [same.settings]
  · rw [same]
    exact iff_of_true ((followed.asked changes document).of_eq rfl rfl) together
  · rw [same, Divides]
    cases found : Service.diagnosed? service.store path with
    | none => exact iff_of_true followed (by simp)
    | some document =>
        have taken : document.taken.turnsOn = document.turnsOn := rfl
        simp only [Option.elim, Service.SwitchFollowed, taken, Option.any_some]
        cases service.cache.enabled.isVoid <;> simp

end Event

def after (service : Service) (events : List Event) : Service := events.foldl Event.apply service

/-- Through a run the cache acts as the service tells, unless a document that has the cache switched on is
diagnosed while the cache itself is off. -/
theorem switches_agree_throughout_iff {service : Service} (sectioned : service.settings.Sectioned)
    (agree : SwitchesAgree service) (events : List Event) :
    (∀ past, past <+: events → SwitchesAgree (after service past)) ↔
      ∀ past event, past ++ [event] <+: events → ¬ event.Divides (after service past) := by
  induction events generalizing service with
  | nil => simp [after, agree]
  | cons event rest ih =>
      have next := Event.sectioned_apply sectioned event
      have step := Event.followed_apply_iff sectioned ((switchesAgree_iff sectioned).mp agree) event
      -- from a state that agrees, an event leads to one that agrees unless it divides the two
      rw [← switchesAgree_iff next] at step
      constructor
      · intro agrees past later ahead
        have first := agrees [event] (by simp)
        cases past with
        | nil =>
            obtain rfl : later = event := by simpa using ahead
            exact step.mp first
        | cons earlier past =>
            obtain ⟨rfl, further⟩ := List.cons_prefix_cons.mp ahead
            refine (ih next first).mp (fun past ahead => ?_) past later further
            exact agrees (earlier :: past) (List.cons_prefix_cons.mpr ⟨rfl, ahead⟩)
      · intro together past ahead
        have first := step.mpr (together [] event (by simp))
        cases past with
        | nil => exact agree
        | cons earlier past =>
            obtain ⟨rfl, further⟩ := List.cons_prefix_cons.mp ahead
            refine (ih next first).mpr (fun past later ahead => ?_) past further
            exact together (earlier :: past) later (List.cons_prefix_cons.mpr ⟨rfl, ahead⟩)

def withFile (text : String) : Service :=
  { store := { root := [("c.yaml", .file text.toUTF8 (.finite 0))] } }

theorem fileAt?_withFile (text : String) :
    (withFile text).store.fileAt? (Path.ofString "/c.yaml") = some (text.toUTF8, .finite 0) := by
  have place : Path.ofString "/c.yaml" = .absolute ["c.yaml"] := by decide
  simp [place, withFile, Store.fileAt?, Store.entry?, Store.locate, Store.startOf, Store.followFrom,
    Store.hasNull, Store.find?, Folder.find?, Folder.get?, Path.absolute]

theorem readText_withFile {text : String} (lines : Text.unifyNewlines text.toList = text.toList) :
    Settings.readText (withFile text).store (Path.ofString "/c.yaml").text = .ok text := by
  have opened : liftFile ((withFile text).store.readBytes (Path.ofString "/c.yaml").text) =
      .ok text.toUTF8 :=
    (File.readBytes_text_eq_ok_iff (Path.ofString_proper "/c.yaml")).mpr ⟨_, fileAt?_withFile text⟩
  have decoded : String.fromUTF8? text.toUTF8 = some text := dif_pos text.isValidUTF8
  simp only [Settings.readText, opened, Outcome.ok_bind, decoded, lines, String.ofList_toList]
  rfl

def turningOn : String := "cache:\n  enabled: true\n"

theorem readText_turningOn :
    Settings.readText (withFile turningOn).store (Path.ofString "/c.yaml").text = .ok turningOn :=
  readText_withFile (by decide +kernel)

theorem diagnosed?_turningOn :
    (Service.diagnosed? (withFile turningOn).store "/c.yaml").any Settings.turnsOn = true := by
  have stands := Settings.fileExists_of_readText (Path.ofString_proper "/c.yaml") readText_turningOn
  rw [Service.diagnosed?, if_pos stands, readText_turningOn]
  decide +kernel

def switchingOff : Event := .call (.configure { cacheEnabled := .bool false })

def diagnosing : Event := .call (.diagnose "/c.yaml")

theorem exists_after_switchingOff : ∃ logging, after (withFile turningOn) [switchingOff] =
    { (withFile turningOn).switched (.bool false) with logging } := by
  have sectioned : (withFile turningOn).settings.Sectioned := Settings.regular_standard.sectioned
  obtain ⟨result, logging, ran, -⟩ := Service.makes_configureTool { cacheEnabled := .bool false } sectioned
  exact ⟨logging, congrArg Prod.snd ran⟩

/-- A cache that has been switched off, and is then told to be on. -/
theorem turningOn_divides :
    (withFile turningOn).settings.Sectioned ∧ SwitchesAgree (withFile turningOn) ∧
    SwitchesAgree (after (withFile turningOn) [switchingOff]) ∧
    ¬ SwitchesAgree (after (withFile turningOn) [switchingOff, diagnosing]) := by
  have sectioned : (withFile turningOn).settings.Sectioned := Settings.regular_standard.sectioned
  have agree : SwitchesAgree (withFile turningOn) := (switchesAgree_iff sectioned).mpr fun _ => rfl
  have agreeFirst : SwitchesAgree (after (withFile turningOn) [switchingOff]) := by
    refine (switches_agree_throughout_iff sectioned agree [switchingOff]).mpr ?_ _ (List.prefix_refl _)
    intro past event ahead
    cases past with
    | nil =>
        obtain rfl : event = switchingOff := by simpa using ahead
        exact id
    | cons earlier past => simp at ahead
  refine ⟨sectioned, agree, agreeFirst, fun agreeLast => ?_⟩
  have throughout (past : List Event) (ahead : past <+: [switchingOff, diagnosing]) :
      SwitchesAgree (after (withFile turningOn) past) := by
    simp only [List.prefix_cons_iff, List.prefix_nil, exists_eq_right] at ahead
    rcases ahead with rfl | ⟨_, rfl, rfl | rfl⟩
    · exact agree
    · exact agreeFirst
    · exact agreeLast
  have together := (switches_agree_throughout_iff sectioned agree _).mp throughout
  obtain ⟨logging, reached⟩ := exists_after_switchingOff
  refine together [switchingOff] diagnosing (List.prefix_refl _) ?_
  rw [reached]
  exact ⟨rfl, diagnosed?_turningOn⟩

end Arborist.Server
