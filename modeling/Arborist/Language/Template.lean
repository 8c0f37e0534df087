import Arborist.Language.Template.Scripting
import Arborist.Language.Template.Systems
import Arborist.Language.Template.Application
import Arborist.Language.Template.Vector
import Arborist.Text.Case

/-!
Query templates: the queries that are known by name, combining them, and carrying a query over to
another language.
-/

namespace Arborist

def queryTemplates : List (String × List (String × String)) := [
  ("python", Template.python), ("javascript", Template.javascript),
  ("typescript", Template.typescript), ("go", Template.go), ("rust", Template.rust),
  ("c", Template.c), ("cpp", Template.cpp), ("swift", Template.swift), ("java", Template.java),
  ("kotlin", Template.kotlin), ("julia", Template.julia), ("apl", Template.apl)]

def templatesOf (language : String) : List (String × String) := (queryTemplates.lookup language).getD []

def template? (language name : String) : Option String := (templatesOf language).lookup name

def templateOr (language pattern : String) : String := (template? language pattern).getD pattern

/-- Several templates or queries one after another; a note is added unless any of them may match. -/
def compoundQuery (language : String) (patterns : List String) (combine : String) : String :=
  let queries := (patterns.map (templateOr language)).filter fun query => !query.isEmpty
  let joined := Text.joinLines queries
  if Text.lowerString combine == "or" then joined
  else joined ++ "\n\n;; Add your #match predicates here to require combinations"

/-- Kinds of nodes of one language and what they are called in another, in the order in which they
are replaced. -/
def kindRenamings (source target : String) : List (String × String) :=
  if source == "python" && target == "javascript" then [
    ("function_definition", "function_declaration"), ("class_definition", "class_declaration"),
    ("block", "statement_block"), ("parameters", "formal_parameters"),
    ("argument_list", "arguments"), ("import_statement", "import_statement"),
    ("call", "call_expression")]
  else if source == "javascript" && target == "python" then [
    ("function_declaration", "function_definition"), ("class_declaration", "class_definition"),
    ("statement_block", "block"), ("formal_parameters", "parameters"),
    ("arguments", "argument_list"), ("call_expression", "call")]
  else []

def adaptQuery (query source target : String) : String :=
  (kindRenamings source target).foldl
    (fun query (kind, renamed) => Text.replaceString ("(" ++ kind) ("(" ++ renamed) query) query

end Arborist
