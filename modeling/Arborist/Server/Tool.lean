import Arborist.Analysis.Complexity
import Arborist.Analysis.Import
import Arborist.Analysis.Structure
import Arborist.Language.NodeKind
import Arborist.Search.Query
import Arborist.Search.Text
import Arborist.Service.Configure
import Arborist.Service.Diagnose
import Arborist.Service.Files
import Arborist.Service.Projects
import Arborist.Tree.Locate

/-!
The tools of the server: what can be asked of it, and how each request is answered.
-/

namespace Arborist.Server

inductive Tool where
  | configure (changes : Service.Changes)
  | registerProject (path : String) (name : Option String) (description : Value)
  | listProjects
  | removeProject (name : String)
  | listLanguages
  | checkLanguage (language : String)
  | listFiles (project : String) (pattern : Option String) (depth : Option Int) (extensions : List String)
  | getFile (project path : String) (count : Option Int) (start : Int)
  | getFileInfo (project path : String)
  | getTree (project path : String) (depth : Option Int) (includeText : Bool)
  | getNodeAt (project path : String) (position : Position)
  | findText (project : String) (query : Search.TextQuery)
  | runQuery (project query : String) (file language : Option String) (limit : Value)
  | getTemplate (language name : String)
  | listTemplates (language : Option String)
  | buildQuery (language : String) (patterns : List String) (combine : String)
  | adaptQuery (query source target : String)
  | describeNodeKinds (language : String)
  | getSymbols (project file : String) (kinds : Option (List String))
  | analyzeProject (project : String) (depth : Int)
  | getDependencies (project file : String)
  | analyzeComplexity (project file : String)
  | findSimilar (project snippet : String) (language : Option String) (limit : Value)
  | findUsage (project symbol : String) (file language : Option String)
  | clearCache (project file : Option String)
  | diagnose (path : String)

namespace Tool

def names : List String :=
  ["adapt_query", "analyze_complexity", "analyze_project", "build_query", "check_language_available",
    "clear_cache", "configure", "diagnose_config", "find_similar_code", "find_text", "find_usage",
    "get_ast", "get_dependencies", "get_file", "get_file_metadata", "get_node_at_position",
    "get_node_types", "get_query_template_tool", "get_symbols", "list_files", "list_languages",
    "list_projects_tool", "list_query_templates_tool", "register_project_tool", "remove_project_tool",
    "run_query"]

def limitOr (limit : Value) (settings : Settings) : Value :=
  match limit with
  | .null => settings.maxResultsDefault
  | given => given

/-- The depth that is asked for; no depth and zero ask for the one of the settings. -/
def depthOr (depth : Option Int) (settings : Settings) : Except Fault Value :=
  match depth with
  | some 0 | none => settings.defaultMaxDepth
  | some depth => return .int depth

/-- The levels that a depth allows; a part of a level is a level. -/
def levelsOf (depth : Value) : Except Fault (Option Int) :=
  match depth with
  | .null => return none
  | depth =>
    match depth.toRat? with
    | some number => return some number.ceil
    | none => throw (.notComparable "<=" depth.kindName "int")

def treeTo (project : Project) (path : String) (depth : Value) (includeText : Bool) : Action Value := do
  match levelsOf depth with
  | .ok levels => Service.fileTree project path levels includeText
  | .error fault =>
    let _ ← Service.fileTree project path none includeText
    throw fault

def checkAvailable (language : String) : Action Value := do
  match ← Action.attempt (Service.loadLanguage language) with
  | .ok _ =>
    return .object [("status", .string "success"),
      ("message", .string s!"Language '{language}' is available via tree-sitter-language-pack")]
  | .error _ =>
    return .object [("status", .string "error"),
      ("message", .string s!"Language '{language}' is not available")]

def fileInfoValue (info : Service.FileInfo) : Value :=
  .object ([("path", .string info.path)] ++
    (match info.size with
      | some size => [("size", .nat size)]
      | none => []) ++
    (match info.modified with
      | some time => [("last_modified", .float time)]
      | none => []) ++
    [("is_directory", .bool info.isDirectory), ("extension", .ofOption .string info.extension),
      ("line_count", .ofOption .nat info.lineCount)])

def contentValue : Service.FileContent → Value
  | .text content => .string content
  | .bytes content => .bytes content

def nodeAt (project : Project) (path : String) (position : Position) : Action Value := do
  let file ← Action.onStore fun store => project.filePath store path
  match (← get).registry.languageOf? path with
  | none => throw (.languageUnknownFor path)
  | some language =>
    let parsed ← Service.parseFile file language
    match parsed.tree.root.atPosition? position with
    | some node => return (node.outline parsed.source { maxDepth := 2 }).toValue
    | none => return .null

def templateValue (templates : List (String × String)) : Value :=
  .object (templates.map fun (name, query) => (name, .string query))

def templateList (language : Option String) : Value :=
  match language with
  | some "" | none => .object (queryTemplates.map fun (language, templates) => (language, templateValue templates))
  | some language => .object [(language, templateValue (templatesOf language))]

def adaptedValue (query source target : String) : Value :=
  .object [("original_language", .string source), ("target_language", .string target),
    ("original_query", .string query),
    ("adapted_query", .string (Arborist.adaptQuery query source target))]

def snippetExtensions : List (String × String) := [
  ("python", "py"), ("javascript", "js"), ("typescript", "ts"), ("rust", "rs"), ("go", "go"),
  ("java", "java"), ("c", "c"), ("cpp", "cpp"), ("ruby", "rb"), ("swift", "swift"),
  ("kotlin", "kt")]

def snippetExtension (language : String) : String := (snippetExtensions.lookup language).getD language

def similarQuery (snippet : String) (language : Option String) (limit : Value) : Search.TextQuery :=
  { pattern := Text.stripString snippet
    filePattern := match language with
      | some "" | none => none
      | some language => some ("**/*." ++ snippetExtension language)
    limit }

def usageQuery (symbol : String) : String :=
  "\n        (\n          (identifier) @reference\n          (#eq? @reference \"" ++ symbol ++
    "\")\n        )\n        "

def searchProject (project : String) (query : Search.TextQuery) : Action Value := do
  let project ← Service.findProject project
  let service ← get
  let found ← Action.lift (Search.searchText service.store service.settings project query)
  return .list (found.map Search.TextMatch.toValue)

def queryProject (project query : String) (file language : Option String) (limit : Value) : Action Value := do
  let project ← Service.findProject project
  let found ← Search.queryCode project { query, limit } file language
  return .list (found.map Search.QueryMatch.toValue)

def usages (project symbol : String) (file language : Option String) : Action Value := do
  let registry := (← get).registry
  let language := match language, file with
    | some "", some file | none, some file =>
      if file.isEmpty then none else registry.languageOf? file
    | some "", none => none
    | language, _ => language
  match language with
  | some language =>
    if language.isEmpty then throw .languageOrFileNeeded
    else queryProject project (usageQuery symbol) file (some language) (.int 100)
  | none => throw .languageOrFileNeeded

def clearCacheFor (project file : Option String) : Action Value := do
  let asked (text : Option String) : Option String := text.filter fun text => !text.isEmpty
  match asked project, asked file with
  | some project, some file =>
    let found ← Service.findProject project
    let path ← Action.onStore fun store => found.filePath store file
    Service.cacheInvalidate (some path)
    return Service.success s!"Cache cleared for {file} in project {project}"
  | some project, none =>
    Service.cacheInvalidate none
    return Service.success s!"Cache cleared for project {project}"
  | none, _ =>
    Service.cacheInvalidate none
    return Service.success "All caches cleared"

def run : Tool → Action Value
  | .configure changes => Service.configureTool changes
  | .registerProject path name description => Service.registerProject path name description
  | .listProjects => Service.listProjects
  | .removeProject name => Action.mapFault (Service.removeProject name) .removal
  | .listLanguages => do
    return .object [("available", .strings (← get).registry.available), ("installable", .list [])]
  | .checkLanguage language => checkAvailable language
  | .listFiles project pattern depth extensions => do
    return .strings (← Service.listFiles (← Service.findProject project) pattern depth extensions)
  | .getFile project path count start => do
    return contentValue (← Service.fileContent (← Service.findProject project) path false count start)
  | .getFileInfo project path => do
    return fileInfoValue (← Service.describeFile (← Service.findProject project) path)
  | .getTree project path depth includeText => do
    let depth ← Action.lift (depthOr depth (← get).settings)
    treeTo (← Service.findProject project) path depth includeText
  | .getNodeAt project path position => do nodeAt (← Service.findProject project) path position
  | .findText project query => do
    searchProject project { query with limit := limitOr query.limit (← get).settings }
  | .runQuery project query file language limit => do
    queryProject project query file language (limitOr limit (← get).settings)
  | .getTemplate language name => do
    match template? language name with
    | some query =>
      return .object [("language", .string language), ("name", .string name), ("query", .string query)]
    | none => throw (.noTemplate name language)
  | .listTemplates language => return templateList language
  | .buildQuery language patterns combine => do
    return .object [("language", .string language),
      ("query", .string (compoundQuery language patterns combine))]
  | .adaptQuery query source target => return adaptedValue query source target
  | .describeNodeKinds language => return templateValue (nodeKinds language)
  | .getSymbols project file kinds => do
    return (← Analysis.extractSymbols (← Service.findProject project) file kinds false).toValue
  | .analyzeProject project depth => do
    let (overview, _) ← Analysis.overview (← Service.findProject project) depth {}
    return overview.toValue
  | .getDependencies project file => do
    return (← Analysis.findDependencies (← Service.findProject project) file).toValue
  | .analyzeComplexity project file => do
    return (← Analysis.analyzeComplexity (← Service.findProject project) file).toValue
  | .findSimilar project snippet language limit => searchProject project (similarQuery snippet language limit)
  | .findUsage project symbol file language => usages project symbol file language
  | .clearCache project file => clearCacheFor project file
  | .diagnose path => do return (← Service.diagnoseSettings path).toValue

end Tool

end Arborist.Server
