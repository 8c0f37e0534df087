import Arborist.Proofs.File.Contents
import Arborist.Proofs.Project.Blank
import Arborist.Proofs.Project.Containment
import Arborist.Proofs.Service.Answers
import Arborist.Proofs.Service.Parsing
import Arborist.Service.Files

/-!
What access is denied to stays unknown.  Two services that differ in the bytes of denied files alone
answer every inquiry about a project alike, and their caches stay equal.
-/

namespace Arborist

/-- Two file systems with the same names, links, sizes and times of change, and with the same bytes in
every file to which access from a root is granted. -/
structure Store.DifferInDenied (settings : Settings) (root : Path) (store other : Store) : Prop where
  blank_eq : other.blank = store.blank
  file_eq : ∀ place content modified, store.find? place = some (.file content modified) →
    Project.checkAccess store settings (Path.absolute place).text root.text = .ok () →
    other.find? place = some (.file content modified)

namespace Store.DifferInDenied

variable {settings : Settings} {root : Path} {store other : Store}

theorem filePath_eq (differ : DifferInDenied settings root store other) (project : Project) (file : String) :
    project.filePath other file = project.filePath store file := by
  rw [← Project.filePath_blank, differ.blank_eq, Project.filePath_blank]

theorem checkAccess_eq (differ : DifferInDenied settings root store other) (file base : String) :
    Project.checkAccess other settings file base = Project.checkAccess store settings file base := by
  rw [← Project.checkAccess_blank, differ.blank_eq, Project.checkAccess_blank]

theorem locate_eq (differ : DifferInDenied settings root store other) {path : Path}
    (atRoot : path.anchor = .root) (settled : store.Settled path.components)
    (granted : Project.checkAccess store settings path.text root.text = .ok ())
    {place : List String} {content : ByteArray} {modified : Binary64}
    (located : store.locate path = .ok (place, .file content modified)) :
    other.locate path = .ok (place, .file content modified) := by
  -- There are no links on the way, so the file found is the one that access was granted to.
  obtain rfl := place_of_locate atRoot settled located
  have pathEquation : Path.absolute path.components = path := by
    obtain ⟨anchor, components⟩ := path
    cases atRoot
    rfl
  have stands := differ.file_eq _ _ _ (find?_of_locate located) (by rwa [pathEquation])
  have blanks := other.locate_blank path
  rw [differ.blank_eq, locate_blank, located] at blanks
  obtain ⟨⟨there, entry⟩, found, same⟩ := Outcome.map_eq_ok_iff.mp blanks.symm
  have samePlace : there = path.components := congrArg Prod.fst same
  have entryStands := find?_of_locate found
  rw [samePlace, stands] at entryStands
  cases entryStands
  rw [found, samePlace]

theorem openFile_eq (differ : DifferInDenied settings root store other) {path : Path} (proper : path.Proper)
    (atRoot : path.anchor = .root) (settled : store.Settled path.components)
    (granted : Project.checkAccess store settings path.text root.text = .ok ()) :
    other.openFile path.text = store.openFile path.text := by
  cases opened : store.openFile path.text with
  | ok file =>
      obtain ⟨content, modified⟩ := file
      rw [openFile_text_eq_ok_iff proper, fileAt?_eq_some_iff] at opened ⊢
      obtain ⟨place, located⟩ := opened
      exact ⟨place, differ.locate_eq atRoot settled granted located⟩
  | error fault =>
      have blanks := other.openFile_blank path.text
      rw [differ.blank_eq, openFile_blank, opened] at blanks
      exact Outcome.map_eq_error_iff.mp blanks.symm

end Store.DifferInDenied

namespace Service

structure Counterparts (settings : Settings) (store other : Store) (first second : Service) : Prop where
  settings_eq : first.settings = settings
  store_eq : first.store = store
  second_eq : second = { first with store := other }

theorem Parsed.Same.refl (parsed : Parsed) : parsed.Same parsed := ⟨rfl, rfl⟩

theorem keyAt?_blank (service : Service) (path : Path) (language : String) :
    keyAt? { service with store := service.store.blank } path language = service.keyAt? path language := by
  unfold keyAt?
  rw [Store.fileAt?_blank, Option.map_map]
  rfl

namespace Counterparts

variable {settings : Settings} {store other : Store}

theorem agree_loadLanguage (language : String) :
    Action.Agree (Counterparts settings store other) Eq (loadLanguage language) (loadLanguage language) := by
  rintro first _ ⟨rfl, rfl, rfl⟩
  rw [run_loadLanguage, run_loadLanguage]
  cases first.registry.load first.engine language with
  | error fault => exact ⟨.error fault, rfl, rfl, rfl⟩
  | ok registry => exact ⟨.ok rfl, rfl, rfl, rfl⟩

theorem agree_loadParser (language : String) :
    Action.Agree (Counterparts settings store other) Eq (loadParser language) (loadParser language) := by
  rintro first _ ⟨rfl, rfl, rfl⟩
  rw [run_loadParser, run_loadParser]
  cases first.registry.loadParser first.engine language with
  | error fault => exact ⟨.error fault, rfl, rfl, rfl⟩
  | ok registry => exact ⟨.ok rfl, rfl, rfl, rfl⟩

theorem agree_parseSource (source : ByteArray) (previous : Option Tree) :
    Action.Agree (Counterparts settings store other) Eq (parseSource source previous)
      (parseSource source previous) := by
  rintro first _ ⟨rfl, rfl, rfl⟩
  rw [run_parseSource, run_parseSource]
  cases first.engine.parse first.engineLog source previous with
  | error fault => exact ⟨.error fault, rfl, rfl, rfl⟩
  | ok parsed => exact ⟨.ok rfl, rfl, rfl, rfl⟩

/-! Through the cache.  A key holds the time of a file's last change and nothing of its bytes. -/

theorem keyAt?_of_blank_eq (service : Service) (same : other.blank = service.store.blank) (path : Path)
    (language : String) :
    keyAt? { service with store := other } path language = service.keyAt? path language := by
  rw [← keyAt?_blank, ← service.keyAt?_blank]
  dsimp only
  rw [same]

theorem agree_cacheGet (same : other.blank = store.blank) (path : Path) (language : String) :
    Action.Agree (Counterparts settings store other) Eq (cacheGet path language) (cacheGet path language) := by
  rintro first _ ⟨rfl, rfl, rfl⟩
  rw [run_cacheGet, run_cacheGet, keyAt?_of_blank_eq first same]
  dsimp only
  split
  · split
    · exact ⟨.ok rfl, rfl, rfl, rfl⟩
    · exact ⟨.error _, rfl, rfl, rfl⟩
  · exact ⟨.ok rfl, rfl, rfl, rfl⟩

theorem agree_cachePut (same : other.blank = store.blank) (path : Path) (language : String) (tree : Tree)
    (source : ByteArray) :
    Action.Agree (Counterparts settings store other) Eq (cachePut path language tree source)
      (cachePut path language tree source) := by
  rintro first _ ⟨rfl, rfl, rfl⟩
  rw [run_cachePut, run_cachePut, keyAt?_of_blank_eq first same]
  dsimp only
  split
  next key _ _ =>
    cases first.cache.put first.settings first.clock key tree source with
    | error fault => exact ⟨.error fault, rfl, rfl, rfl⟩
    | ok cache => exact ⟨.ok rfl, rfl, rfl, rfl⟩
  · exact ⟨.ok rfl, rfl, rfl, rfl⟩

theorem agree_keepTree (same : other.blank = store.blank) (path : Path) (language : String)
    (source : ByteArray) :
    Action.Agree (Counterparts settings store other) Parsed.Same (keepTree path language source)
      (keepTree path language source) := by
  unfold keepTree
  refine (agree_parseSource source none).bind_eq fun tree => ?_
  refine (agree_cachePut same path language tree source).bind_eq fun _ => ?_
  exact Action.agree_pure (.refl _)

theorem agree_throughCache (same : other.blank = store.blank) (path : Path) (language : String)
    {fallback : Action Parsed}
    (falls : Action.Agree (Counterparts settings store other) Parsed.Same fallback fallback) :
    Action.Agree (Counterparts settings store other) Parsed.Same (throughCache path language fallback)
      (throughCache path language fallback) := by
  unfold throughCache
  refine (agree_cacheGet same path language).bind_eq fun result => ?_
  cases result with
  | some parsed => exact Action.agree_pure (.refl parsed)
  | none => exact falls

theorem agree_onStore {read : Store → Except Fault α} (same : read other = read store) :
    Action.Agree (Counterparts settings store other) Eq (Action.onStore read) (Action.onStore read) := by
  rintro first _ ⟨rfl, rfl, rfl⟩
  rw [Action.run_onStore, Action.run_onStore, same]
  exact ⟨.refl _, rfl, rfl, rfl⟩

theorem agree_readSource {path : Path} (opens : other.openFile path.text = store.openFile path.text) :
    Action.Agree (Counterparts settings store other) Eq (readSource path) (readSource path) := by
  apply agree_onStore
  simp only [File.readBytes, Store.readBytes, opens]

theorem agree_countLines {path : Path} (opens : other.openFile path.text = store.openFile path.text) :
    Action.Agree (Counterparts settings store other) Eq (countLines path.text) (countLines path.text) := by
  unfold countLines
  refine Action.agree_get.bind ?_
  rintro first _ ⟨rfl, rfl, rfl⟩
  have reads : other.readBytes path.text = first.store.readBytes path.text := by
    simp only [Store.readBytes, opens]
  dsimp only
  rw [reads]
  split
  · exact Action.agree_pure rfl
  · exact Action.agree_pure rfl

theorem agree_scanProject (same : other.blank = store.blank) (project : Project) (force : Bool) :
    Action.Agree (Counterparts settings store other)
      (fun left right => left = right ∧ left.root = project.root)
      (scanProject project force) (scanProject project force) := by
  rintro first _ ⟨rfl, rfl, rfl⟩
  have scans : project.scan other first.registry first.clock force =
      project.scan first.store first.registry first.clock force := by
    rw [← Project.scan_blank, same, Project.scan_blank]
  have sameRoot : (project.scan first.store first.registry first.clock force).root = project.root := by
    unfold Project.scan
    dsimp only
    split
    · rfl
    · rfl
  simp only [scanProject, Action.run_bind, Action.run_get, Action.run_modify, Action.run_pure, scans]
  exact ⟨.ok ⟨rfl, sameRoot⟩, rfl, rfl, rfl⟩

variable {project : Project} (differ : Store.DifferInDenied settings project.root store other)
  (rootProper : project.root.Proper)

include differ rootProper

theorem answering :
    Answering (Counterparts settings store other) project
      (fun path => other.openFile path.text = store.openFile path.text) fun _ => True where
  engine_eq := by
    rintro first _ ⟨rfl, rfl, rfl⟩
    rfl
  extensions_eq := by
    rintro first _ ⟨rfl, rfl, rfl⟩
    rfl
  compiled := by
    rintro first _ text ⟨rfl, rfl, rfl⟩
    exact ⟨rfl, rfl, rfl⟩
  named_of_languageOf? _ _ := trivial
  filePath_eq := by
    rintro first _ ⟨rfl, rfl, rfl⟩ file
    exact differ.filePath_eq project file
  checkAccess_eq := by
    rintro first _ ⟨rfl, rfl, rfl⟩ file root
    exact differ.checkAccess_eq file root
  readable_of_checkAccess := by
    rintro first _ file path ⟨rfl, rfl, rfl⟩ accepted granted
    obtain ⟨names, rfl⟩ := Project.exists_absolute_of_normalize (Project.filePath_eq_ok_iff.mp accepted).1
    exact differ.openFile_eq (Project.filePath_proper rootProper accepted) rfl
      (Project.filePath_settled rootProper accepted) granted
  files_eq := by
    rintro first _ ⟨rfl, rfl, rfl⟩
    funext extension
    rw [← Search.filesWithExtension_blank, ← Search.filesWithExtension_blank first.store]
    dsimp only
    rw [differ.blank_eq]
  readLines := by
    intro path opens
    apply agree_onStore
    simp only [File.readLines, File.readBytes, Store.readBytes, opens]
  loadLanguage _ := agree_loadLanguage _
  parseFile := by
    intro path language opens _
    rw [parseFile_eq]
    refine agree_throughCache differ.blank_eq path language (Action.Agree.mapFault ?_ _)
    refine (agree_loadParser language).bind_eq fun _ => ?_
    exact (agree_readSource opens).bind_eq (agree_keepTree differ.blank_eq path language)
  parseCached := by
    intro path language opens _
    rw [parseCached_eq]
    refine (agree_loadLanguage language).bind_eq fun _ => ?_
    refine agree_throughCache differ.blank_eq path language ?_
    exact (agree_readSource opens).bind_eq (agree_keepTree differ.blank_eq path language)
  parseForQuery := by
    intro path language opens _
    rw [parseForQuery_eq]
    refine agree_throughCache differ.blank_eq path language ?_
    refine (agree_readSource opens).bind_eq fun source => ?_
    refine (agree_loadParser language).bind_eq fun _ => ?_
    exact agree_keepTree differ.blank_eq path language source

/-! The content of a file and what is known of it. -/

theorem agree_readablePath (file : String) :
    Action.Agree (Counterparts settings store other)
      (fun left right => left = right ∧ other.openFile left.text = store.openFile left.text)
      (readablePath project file) (readablePath project file) := by
  unfold readablePath
  refine Action.agree_get.bind fun first second related => ?_
  rw [(answering differ rootProper).filePath_eq related]
  cases accepted : project.filePath first.store file with
  | ok path =>
      dsimp only
      rw [pure_bind, pure_bind]
      refine ((answering differ rootProper).agree_checkAccess related accepted _).bind fun _ _ opens => ?_
      exact Action.agree_pure ⟨rfl, opens⟩
  | error fault =>
      dsimp only
      split
      next impossible => cases impossible
      next => exact Action.agree_throw_bind _ _ _
      next => exact Action.agree_throw_bind _ _ _

theorem agree_fileContent (file : String) (asBytes : Bool) (count : Option Int) (start : Int) :
    Action.Agree (Counterparts settings store other) Eq (fileContent project file asBytes count start)
      (fileContent project file asBytes count start) := by
  unfold fileContent
  refine (agree_readablePath differ rootProper file).bind ?_
  rintro path _ ⟨rfl, opens⟩
  refine Action.agree_get.bind ?_
  rintro first _ ⟨rfl, rfl, rfl⟩
  have reads : other.readBytes path.text = first.store.readBytes path.text := by
    simp only [Store.readBytes, opens]
  dsimp only
  rw [reads]
  split
  next =>
    refine (Action.agree_pure (Eq.refl _)).bind_eq fun bytes => ?_
    split
    · exact Action.agree_pure rfl
    · exact Action.agree_pure rfl
  next => exact Action.agree_throw_bind _ _ _
  next => exact Action.agree_throw_bind _ _ _

theorem agree_describeFile (file : String) :
    Action.Agree (Counterparts settings store other) Eq (describeFile project file)
      (describeFile project file) := by
  unfold describeFile
  refine (agree_readablePath differ rootProper file).bind ?_
  rintro path _ ⟨rfl, opens⟩
  refine Action.agree_get.bind ?_
  rintro first _ ⟨rfl, rfl, rfl⟩
  have blanks := other.locate_blank path
  rw [differ.blank_eq, Store.locate_blank] at blanks
  dsimp only
  cases located : first.store.locate path with
  | error fault =>
      rw [located] at blanks
      rw [Outcome.map_eq_error_iff.mp blanks.symm]
      cases fault with
      | missing => exact Action.agree_throw_bind _ _ _
      | notDirectory => exact Action.agree_throw_bind _ _ _
      | loop => exact Action.agree_throw_bind _ _ _
  | ok found =>
      obtain ⟨place, entry⟩ := found
      rw [located] at blanks
      obtain ⟨⟨there, entryThere⟩, locatedThere, same⟩ := Outcome.map_eq_ok_iff.mp blanks.symm
      have sameBlank : entryThere.blank = entry.blank := congrArg Prod.snd same
      rw [locatedThere]
      dsimp only
      rw [pure_bind, pure_bind]
      cases entry with
      | file content modified =>
          cases entryThere with
          | file contentThere modifiedThere =>
              obtain ⟨bytes, rfl⟩ := Entry.file.inj sameBlank
              have sizes : contentThere.size = content.size := by simpa using congrArg ByteArray.size bytes
              refine (agree_countLines opens).bind_eq fun lines => ?_
              rw [sizes]
              exact Action.agree_pure rfl
          | link target => cases sameBlank
          | directory children => cases sameBlank
      | link target =>
          obtain rfl := Entry.blank_eq_link_iff.mp sameBlank
          exact Action.agree_pure rfl
      | directory children =>
          cases entryThere with
          | file contentThere modifiedThere => cases sameBlank
          | link target => cases sameBlank
          | directory childrenThere => exact Action.agree_pure rfl

/-! Overviews. -/

theorem agree_sampleSymbols (files : List String) :
    Action.Agree (Counterparts settings store other) Eq (Analysis.sampleSymbols project files)
      (Analysis.sampleSymbols project files) := by
  induction files with
  | nil => exact Action.agree_pure rfl
  | cons file rest ih =>
      unfold Analysis.sampleSymbols
      refine ((answering differ rootProper).agree_extractSymbols file none false).attempt.bind ?_
      intro result _ alike
      rw [alike.eq]
      dsimp only
      split
      · exact ih.bind_eq fun _ => Action.agree_pure rfl
      · exact ih

theorem agree_languageSamples (depth : Nat) (languages : List String) :
    Action.Agree (Counterparts settings store other) Eq (Analysis.languageSamples project depth languages)
      (Analysis.languageSamples project depth languages) := by
  induction languages with
  | nil => exact Action.agree_pure rfl
  | cons language rest ih =>
      unfold Analysis.languageSamples
      refine Action.agree_get.bind ?_
      rintro first _ ⟨rfl, rfl, rfl⟩
      have files : Analysis.sampleFiles other project depth [] (first.registry.extensionsOf language) =
          Analysis.sampleFiles first.store project depth [] (first.registry.extensionsOf language) := by
        rw [← Analysis.sampleFiles_blank, differ.blank_eq, Analysis.sampleFiles_blank]
      dsimp only
      rw [files]
      refine (Action.agree_lift (.refl _)).bind_eq fun files => ?_
      refine (agree_sampleSymbols differ rootProper files).bind_eq fun samples => ?_
      refine ih.bind_eq fun others => ?_
      exact Action.agree_pure rfl

theorem agree_overview (depth : Int) (context : ProgressContext) :
    Action.Agree (Counterparts settings store other) Eq (Analysis.overview project depth context)
      (Analysis.overview project depth context) := by
  unfold Analysis.overview
  refine (agree_scanProject differ.blank_eq project false).bind ?_
  rintro scanned _ ⟨rfl, sameRoot⟩
  rw [← sameRoot] at differ rootProper
  refine Action.agree_get.bind ?_
  rintro first _ ⟨rfl, rfl, rfl⟩
  have listings : Analysis.visibleListings other first.settings scanned.root =
      Analysis.visibleListings first.store first.settings scanned.root := by
    rw [← Analysis.visibleListings_blank, differ.blank_eq, Analysis.visibleListings_blank]
  have entries (names : List String) : Analysis.entryPoints other scanned.root names =
      Analysis.entryPoints first.store scanned.root names := by
    rw [← Analysis.entryPoints_blank, differ.blank_eq, Analysis.entryPoints_blank]
  have builds : Analysis.buildFiles other scanned.root = Analysis.buildFiles first.store scanned.root := by
    rw [← Analysis.buildFiles_blank, differ.blank_eq, Analysis.buildFiles_blank]
  dsimp only
  rw [listings, entries, builds]
  refine (Action.agree_lift (.refl _)).bind_eq fun found => ?_
  split
  · exact (agree_languageSamples differ rootProper _ _).bind_eq fun _ => Action.agree_pure rfl
  · exact Action.agree_pure rfl

end Counterparts

end Service

/-- What can be asked about a project, by the type of the answer. -/
inductive Inquiry : Type → Type where
  | content (file : String) (asBytes : Bool) (count : Option Int) (start : Int) : Inquiry Service.FileContent
  | description (file : String) : Inquiry Service.FileInfo
  | tree (file : String) (maxDepth : Option Int) (includeText : Bool) : Inquiry Value
  | occurrences (query : Search.CodeQuery) (file language : Option String) : Inquiry (List Search.QueryMatch)
  | symbols (file : String) (kinds : Option (List String)) (withoutMethods : Bool) : Inquiry SymbolTable
  | dependencies (file : String) : Inquiry ImportTable
  | complexity (file : String) : Inquiry Complexity
  | overview (depth : Int) (context : ProgressContext) : Inquiry (ProjectOverview × ProgressContext)

def Inquiry.ask (project : Project) : Inquiry α → Action α
  | content file asBytes count start => Service.fileContent project file asBytes count start
  | description file => Service.describeFile project file
  | tree file maxDepth includeText => Service.fileTree project file maxDepth includeText
  | occurrences query file language => Search.queryCode project query file language
  | symbols file kinds withoutMethods => Analysis.extractSymbols project file kinds withoutMethods
  | dependencies file => Analysis.findDependencies project file
  | complexity file => Analysis.analyzeComplexity project file
  | overview depth context => Analysis.overview project depth context

namespace Service

theorem Counterparts.agree_ask {settings : Settings} {store other : Store} {project : Project}
    (differ : Store.DifferInDenied settings project.root store other) (rootProper : project.root.Proper)
    (inquiry : Inquiry α) :
    Action.Agree (Counterparts settings store other) Eq (inquiry.ask project) (inquiry.ask project) := by
  have alike := answering differ rootProper
  cases inquiry with
  | content file asBytes count start => exact agree_fileContent differ rootProper file asBytes count start
  | description file => exact agree_describeFile differ rootProper file
  | tree file maxDepth includeText => exact alike.agree_fileTree file maxDepth includeText
  | occurrences query file language => exact alike.agree_queryCode query file fun _ _ => trivial
  | symbols file kinds withoutMethods => exact alike.agree_extractSymbols file kinds withoutMethods
  | dependencies file => exact alike.agree_findDependencies file
  | complexity file => exact alike.agree_analyzeComplexity file
  | overview depth context => exact agree_overview differ rootProper depth context

def guarded (secret : List UInt8) : Store :=
  { root := [("p", .directory [(".git", .file ⟨secret.toArray⟩ (.finite 0)),
      ("f", .file ⟨#[97]⟩ (.finite 0))])] }

def guardedProject : Project := { name := "p", root := .absolute ["p"] }

theorem file_of_guarded {secret : List UInt8} {place : List String} {content : ByteArray}
    {modified : Binary64} (found : (guarded secret).find? place = some (.file content modified)) :
    place = ["p", ".git"] ∨ place = ["p", "f"] ∧ content = ⟨#[97]⟩ ∧ modified = .finite 0 := by
  match place with
  | [] => cases found
  | [name] =>
      have member := Folder.mem_of_get? found
      simp [guarded] at member
  | first :: second :: rest =>
      obtain ⟨children, member, inside⟩ := Folder.exists_children_of_find? found
      obtain ⟨rfl, rfl⟩ : first = "p" ∧ children = _ := by simpa [guarded] using member
      match rest with
      | [] =>
          have last := Folder.mem_of_get? inside
          simp only [List.mem_cons, Prod.mk.injEq, Entry.file.injEq, List.not_mem_nil, or_false] at last
          rcases last with ⟨rfl, -⟩ | ⟨rfl, same⟩
          · exact .inl rfl
          · exact .inr ⟨rfl, same⟩
      | third :: others =>
          obtain ⟨_, last, -⟩ := Folder.exists_children_of_find? inside
          simp at last

theorem resolve_guarded (secret : List UInt8) :
    (guarded secret).resolve (.ofString guardedProject.root.text) = .ok (.absolute ["p"]) := by
  cbv

theorem checkAccess_guarded_secret (secret : List UInt8) :
    Project.checkAccess (guarded secret) {} (Path.absolute ["p", ".git"]).text guardedProject.root.text =
      .error (.excludedDirectory ".git") := by
  have resolved : (guarded secret).resolve (.ofString (Path.absolute ["p", ".git"]).text) =
      .ok (.absolute ["p", ".git"]) := by
    rw [Path.ofString_text (by decide)]
    cbv
  rw [Project.checkAccess_of_resolved resolved (resolve_guarded secret), if_pos (by decide)]
  rfl

theorem differ_guarded :
    Store.DifferInDenied {} guardedProject.root (guarded [1]) (guarded [2]) where
  blank_eq := rfl
  file_eq := by
    intro place content modified found granted
    rcases file_of_guarded found with rfl | ⟨rfl, rfl, rfl⟩
    · have denied := checkAccess_guarded_secret [1]
      cases granted.symm.trans denied
    · rfl

theorem checkAccess_guarded {secret : List UInt8}
    (found : (guarded secret).fileAt? (.absolute ["p", "f"]) = some (⟨#[97]⟩, .finite 0)) :
    Project.checkAccess (guarded secret) {} (Path.absolute ["p", "f"]).text guardedProject.root.text =
      .ok () := by
  have resolved : (guarded secret).resolve (.ofString (Path.absolute ["p", "f"]).text) =
      .ok (.absolute ["p", "f"]) := by
    cbv
  have small : Project.checkSize (guarded secret) (Settings.maxFileSizeMb {}) (.absolute ["p", "f"]) =
      .ok () := by
    rw [Project.checkSize_eq_ok_iff, found]
    rintro _ _ ⟨⟩
    have fits : (Binary64.finite (5 : Int)).lt (Project.megabytes (ByteArray.size ⟨#[97]⟩)) = false := by
      decide +kernel
    exact ⟨_, rfl, congrArg Except.ok fits⟩
  rw [Project.checkAccess_of_resolved resolved (resolve_guarded secret), if_pos (by decide)]
  exact small

theorem content_guarded_secret :
    (((Inquiry.content ".git" true none 0).ask guardedProject).run { store := guarded [1] }).1 =
      .error (.accessDenied (.excludedDirectory ".git")) := by
  have accepted : guardedProject.filePath (guarded [1]) ".git" = .ok (.absolute ["p", ".git"]) := by
    rw [Project.filePath_eq_ok_iff_inside_or_beside (by decide)]
    exact ⟨rfl, by cbv, .inl (by decide)⟩
  have denied := checkAccess_guarded_secret [1]
  simp only [Inquiry.ask, fileContent, readablePath, Action.run_bind, Action.run_get, accepted,
    Action.run_pure, Action.run_mapFault, Action.run_lift, denied]
  rfl

theorem content_guarded :
    (((Inquiry.content "f" true none 0).ask guardedProject).run { store := guarded [1] }).1 =
      .ok (.bytes ⟨#[97]⟩) := by
  have accepted : guardedProject.filePath (guarded [1]) "f" = .ok (.absolute ["p", "f"]) := by
    cbv
  have found : (guarded [1]).fileAt? (.absolute ["p", "f"]) = some (⟨#[97]⟩, .finite 0) := by
    cbv
  have granted := checkAccess_guarded found
  have read : (guarded [1]).readBytes (Path.absolute ["p", "f"]).text = .ok ⟨#[97]⟩ := by
    rw [Store.readBytes, (Store.openFile_text_eq_ok_iff (by decide)).mpr found]
    rfl
  simp only [Inquiry.ask, fileContent, readablePath, Action.run_bind, Action.run_get, accepted,
    Action.run_pure, Action.run_mapFault, Action.run_lift, granted, Outcome.ok_mapError, read]
  rfl

end Service

end Arborist
