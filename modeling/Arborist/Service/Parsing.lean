import Arborist.Service.State
import Arborist.File.Read
import Arborist.Project.Access
import Arborist.Tree.Outline

/-!
Parsing files, through the cache or without it.
-/

namespace Arborist.Service

structure Parsed where
  tree : Tree
  source : ByteArray

def cacheKey? (path : Path) (language : String) : Action (Option String) := do
  let store := (← get).store
  return (store.fileAt? path).map fun (_, modified) => TreeCache.keyOf language path.text modified

def cacheGet (path : Path) (language : String) : Action (Option Parsed) := do
  let service ← get
  if !service.cache.isEnabled service.settings then return none
  match ← cacheKey? path language with
  | none => return none
  | some key =>
    let (entry, cache) ← Action.lift (service.cache.get service.settings service.clock key)
    modify fun service => { service with cache }
    return entry.map fun entry => ⟨entry.tree, entry.source⟩

def cachePut (path : Path) (language : String) (tree : Tree) (source : ByteArray) : Action Unit := do
  let service ← get
  if !service.cache.isEnabled service.settings then return
  match ← cacheKey? path language with
  | none => return
  | some key =>
    let cache ← Action.lift (service.cache.put service.settings service.clock key tree source)
    modify fun service => { service with cache }

def cacheUpdate (path : Path) (language : String) (tree : Tree) (source : ByteArray) : Action Unit := do
  match ← cacheKey? path language with
  | none => return
  | some key =>
    let service ← get
    let cache ← Action.lift (service.cache.update service.settings service.clock key tree source)
    modify fun service => { service with cache }

def cacheMarkModified (path : Path) (language : String) : Action Unit := do
  match ← cacheKey? path language with
  | none => return
  | some key => modify fun service => { service with cache := service.cache.markModified key }

def cacheIsModified (path : Path) (language : String) : Action Bool := do
  match ← cacheKey? path language with
  | none => return false
  | some key => return (← get).cache.isModified key

def cacheEvict (required : Int) : Action Unit := do
  let service ← get
  let cache ← Action.lift (service.cache.makeRoom service.settings required)
  modify fun service => { service with cache }

def cacheInvalidate (path : Option Path) : Action Unit :=
  modify fun service =>
    { service with cache := match path with
        | none => service.cache.clear
        | some path => service.cache.invalidate path.text }

def readSource (path : Path) : Action ByteArray := Action.onStore fun store => File.readBytes store path.text

def allowedPath (project : Project) (path : String) : Action Path := do
  let service ← get
  let file ← Action.lift (project.filePath service.store path)
  Action.mapFault
    (Action.lift (Project.checkAccess service.store service.settings file.text project.root.text))
    fun fault => if fault.category = .security then .denied fault else fault
  return file

def parseFile (path : Path) (language : String) : Action Parsed := do
  match ← cacheGet path language with
  | some parsed => return parsed
  | none =>
    Action.mapFault
      (do
        loadParser language
        let source ← readSource path
        let tree ← parseSource source none
        cachePut path language tree source
        return ⟨tree, source⟩)
      (.parsing path.text)

def parseCached (path : Path) (language : String) : Action Parsed := do
  match ← cacheGet path language with
  | some parsed => return parsed
  | none =>
    let source ← readSource path
    let tree ← parseSource source none
    cachePut path language tree source
    return ⟨tree, source⟩

/-- Parses a cached file again after an edit, with its old tree at hand.  Nothing happens to a file
that is not cached; if the edit or the parse fails, the file is parsed as usual. -/
def updateCached (path : Path) (language : String) (edit : Edit) : Action (Option Parsed) := do
  match ← cacheGet path language with
  | none => return none
  | some old =>
    let result ← Action.attempt do
      editTree old.tree edit
      let source ← readSource path
      let tree ← parseSource source (some old.tree)
      cachePut path language tree source
      return Parsed.mk tree source
    match result with
    | .ok parsed => return some parsed
    | .error _ => return some (← parseCached path language)

def suffixLanguage? (path : Path) : Option String :=
  let suffix := Text.lowerString path.suffix
  if suffix == ".py" then some "python"
  else if [".js", ".jsx"].contains suffix then some "javascript"
  else if [".ts", ".tsx"].contains suffix then some "typescript"
  else if suffix == ".java" then some "java"
  else if [".c", ".h"].contains suffix then some "c"
  else if [".cpp", ".hpp", ".cc", ".hh"].contains suffix then some "cpp"
  else if suffix == ".go" then some "go"
  else if suffix == ".rs" then some "rust"
  else if suffix == ".rb" then some "ruby"
  else if suffix == ".php" then some "php"
  else none

def parseDetected (path : Path) (language : Option String) : Action Parsed := do
  if !(← get).store.fileExists path then throw (.fileMissing path.text)
  let language ← match language with
    | some language => pure language
    | none =>
      match suffixLanguage? path with
      | some language => pure language
      | none => throw (.languageUndetected path.text)
  Action.mapFault (loadParser language) (.parserUnavailable language)
  let source ← readSource path
  return ⟨← parseSource source none, source⟩

def parseIncremental (path : Path) (previous : Option Tree) (language : String) : Action Parsed := do
  if !(← get).store.fileExists path then throw (.fileMissing path.text)
  loadParser language
  let source ← readSource path
  return ⟨← parseSource source previous, source⟩

inductive ParserChoice where
  | parser
  | language (name : String)
  | unusable (shown : String)

def parseWith (path : Path) (choice : ParserChoice) : Action Parsed := do
  let source ← readSource path
  match choice with
  | .parser => return ⟨← parseSource source none, source⟩
  | .language name =>
    Action.mapFault
      (do
        loadParser name
        return ⟨← parseSource source none, source⟩)
      (.parserUnavailable name)
  | .unusable shown => throw (.invalidParser shown)

def fileTree (project : Project) (path : String) (maxDepth : Option Int) (includeText : Bool) :
    Action Value := do
  let file ← Action.onStore fun store => project.filePath store path
  let service ← get
  Action.mapFault
    (Action.lift (Project.checkAccess service.store service.settings file.text project.root.text))
    .accessDenied
  match service.registry.languageOf? path with
  | none => throw (.undetected path)
  | some language =>
    let parsed ← parseFile file language
    let outline := parsed.tree.root.outline parsed.source
      { includeText := includeText, maxDepth := maxDepth.getD 5 }
    return .object [("file", .string path), ("language", .string language), ("tree", outline.toValue)]

end Arborist.Service
