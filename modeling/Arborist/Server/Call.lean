import Arborist.Data.Fields
import Arborist.Server.Prompt
import Arborist.Server.Tool

/-!
Requests by name: the tool or prompt that a name and its arguments stand for.  Arguments that are
left out have their standard values.
-/

namespace Arborist.Server

open Fields

def changesOf (arguments : Value) : Service.Changes :=
  { document := raw arguments "config_path" .null
    cacheEnabled := raw arguments "cache_enabled" .null
    maxFileSizeMb := raw arguments "max_file_size_mb" .null
    logLevel := raw arguments "log_level" .null }

def textQueryOf (arguments : Value) (contextLines : Int) : Search.TextQuery :=
  { pattern := text arguments "pattern"
    filePattern := text? arguments "file_pattern"
    limit := raw arguments "max_results" (.int 100)
    caseSensitive := flag arguments "case_sensitive" false
    wholeWord := flag arguments "whole_word" false
    useRegex := flag arguments "use_regex" false
    contextLines := int arguments "context_lines" contextLines }

def Tool.ofCall? (name : String) (arguments : Value) : Option Tool :=
  let project := text arguments "project"
  let path := text arguments "path"
  let file := text arguments "file_path"
  let language := text arguments "language"
  match name with
  | "configure" => some (.configure (changesOf arguments))
  | "register_project_tool" =>
    some (.registerProject path (text? arguments "name") (raw arguments "description" .null))
  | "list_projects_tool" => some .listProjects
  | "remove_project_tool" => some (.removeProject (text arguments "name"))
  | "list_languages" => some .listLanguages
  | "check_language_available" => some (.checkLanguage language)
  | "list_files" =>
    some (.listFiles project (text? arguments "pattern") (int? arguments "max_depth")
      ((texts? arguments "extensions").getD []))
  | "get_file" => some (.getFile project path (int? arguments "max_lines") (int arguments "start_line" 0))
  | "get_file_metadata" => some (.getFileInfo project path)
  | "get_ast" =>
    some (.getTree project path (int? arguments "max_depth") (flag arguments "include_text" true))
  | "get_node_at_position" =>
    some (.getNodeAt project path ⟨int arguments "row" 0, int arguments "column" 0⟩)
  | "find_text" => some (.findText project (textQueryOf arguments 2))
  | "run_query" =>
    some (.runQuery project (text arguments "query") (text? arguments "file_path")
      (text? arguments "language") (raw arguments "max_results" (.int 100)))
  | "get_query_template_tool" => some (.getTemplate language (text arguments "template_name"))
  | "list_query_templates_tool" => some (.listTemplates (text? arguments "language"))
  | "build_query" =>
    some (.buildQuery language ((texts? arguments "patterns").getD [])
      ((text? arguments "combine").getD "or"))
  | "adapt_query" =>
    some (.adaptQuery (text arguments "query") (text arguments "from_language")
      (text arguments "to_language"))
  | "get_node_types" => some (.describeNodeKinds language)
  | "get_symbols" => some (.getSymbols project file (texts? arguments "symbol_types"))
  | "analyze_project" => some (.analyzeProject project (int arguments "scan_depth" 3))
  | "get_dependencies" => some (.getDependencies project file)
  | "analyze_complexity" => some (.analyzeComplexity project file)
  | "find_similar_code" =>
    some (.findSimilar project (text arguments "snippet") (text? arguments "language")
      (raw arguments "max_results" (.int 10)))
  | "find_usage" =>
    some (.findUsage project (text arguments "symbol") (text? arguments "file_path")
      (text? arguments "language"))
  | "clear_cache" => some (.clearCache (text? arguments "project") (text? arguments "file_path"))
  | "diagnose_config" => some (.diagnose (text arguments "config_path"))
  | _ => none

def Prompt.ofCall? (name : String) (arguments : Value) : Option Prompt :=
  let project := text arguments "project"
  let file := text arguments "file_path"
  match name with
  | "code_review" => some (.codeReview project file)
  | "explain_code" => some (.explainCode project file (text? arguments "focus"))
  | "explain_tree_sitter_query" => some .explainQuery
  | "suggest_improvements" => some (.suggestImprovements project file)
  | "project_overview" => some (.projectOverview project)
  | _ => none

end Arborist.Server
