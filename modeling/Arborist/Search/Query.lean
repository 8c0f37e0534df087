import Arborist.Service.Parsing
import Arborist.Search.Limit

/-!
Running queries on one file or on all files of a language.
-/

namespace Arborist.Search

structure QueryMatch where
  file : String
  capture : String
  start : Point
  stop : Point
  text : Option String

def QueryMatch.toValue (found : QueryMatch) : Value :=
  .object ([("file", .string found.file), ("capture", .string found.capture),
      ("start", found.start.toValue), ("end", found.stop.toValue)] ++
    match found.text with
    | some text => [("text", .string text)]
    | none => [])

structure CodeQuery where
  query : String
  limit : Value := .int 100
  includeText : Bool := true

def matchOf (file : String) (source : ByteArray) (includeText : Bool) (captured : Option Node × String) :
    Except Fault QueryMatch :=
  match captured.1 with
  | some node =>
    .ok ⟨file, captured.2, node.start, node.stop, if includeText then some (node.text source) else none⟩
  | none => .error (.noAttribute "NoneType" "start_point")

def parseForQuery (path : Path) (language : String) : Action Service.Parsed := do
  match ← Service.cacheGet path language with
  | some parsed => return parsed
  | none =>
    let source ← Service.readSource path
    Service.loadParser language
    let tree ← Service.parseSource source none
    Service.cachePut path language tree source
    return ⟨tree, source⟩

def queryFile (project : Project) (query : CodeQuery) (file : String) (language : Option String) :
    Action (List QueryMatch) := do
  let path ← Service.allowedPath project file
  let language ← match language with
    | some "" | none =>
      match (← get).registry.languageOf? file with
      | some language => pure language
      | none => throw (.queryLanguageUnknown file)
    | some language => pure language
  let found ← Action.mapFault
    (do
      let parsed ← parseForQuery path language
      Service.loadLanguage language
      let captures ← Service.runQuery query.query parsed.tree
      Action.lift do
        let told ← takeWhileBelow query.limit captures.told
        told.mapM (matchOf file parsed.source query.includeText))
    (.querying file)
  Action.lift (cutTo query.limit found)

def queryFiles (project : Project) (query : CodeQuery) (language : String) (found : List QueryMatch) :
    List String → Action (List QueryMatch)
  | [] => return found
  | file :: rest => do
    let result ← Action.attempt do
      let limit ← Action.lift (remaining query.limit found.length)
      queryFile project { query with limit } file (some language)
    let found := match result with
      | .ok more => found ++ more
      | .error _ => found
    match query.limit with
    | .null => queryFiles project query language found rest
    | limit =>
      match reaches found.length limit with
      | .ok true => return found
      | _ => queryFiles project query language found rest

def filesWithExtension (store : Store) (project : Project) (extension : String) :
    Except Fault (List String) := do
  let paths ← (File.glob store project.root ("**/*." ++ extension)).mapError .pattern
  return (paths.filter store.isFile).filterMap fun path => (path.relativeTo? project.root).map Path.text

def queryProject (project : Project) (query : CodeQuery) (language : Option String) :
    Action (List QueryMatch) := do
  match language with
  | some "" | none => throw .queryLanguageNeeded
  | some language =>
    let service ← get
    let extensions := service.registry.extensionsOf language
    if extensions.isEmpty then throw (.noExtensions language)
    let files ← Action.lift (extensions.mapM (filesWithExtension service.store project))
    let found ← queryFiles project query language [] files.flatten
    Action.lift (cutTo query.limit found)

def queryCode (project : Project) (query : CodeQuery) (file language : Option String) :
    Action (List QueryMatch) :=
  match file with
  | some file => queryFile project query file language
  | none => queryProject project query language

end Arborist.Search
