import Arborist.Analysis.Complexity
import Arborist.Analysis.Structure
import Arborist.Service.Files

/-!
Prompts about files and projects, filled in with what is known of them.
-/

namespace Arborist.Server

inductive Prompt where
  | codeReview (project file : String)
  | explainCode (project file : String) (focus : Option String)
  | explainQuery
  | suggestImprovements (project file : String)
  | projectOverview (project : String)

namespace Prompt

def names : List String :=
  ["code_review", "explain_code", "explain_tree_sitter_query", "project_overview",
    "suggest_improvements"]

def framed (lines : List String) : String := "\n" ++ "\n".intercalate lines ++ "\n        "

def lines (texts : List String) : List String := texts.map fun text => "        " ++ text

def fenced (language content : String) : List String := ["```" ++ language, content, "```"]

def fileText (project : Project) (file : String) : Action String := do
  match ← Service.fileContent project file false none 0 with
  | .text content => return content
  | .bytes _ => return ""

def languageText (file : String) : Action String := do
  return ((← get).registry.languageOf? file).getD "None"

def symbolList (heading : String) (symbols : List Symbol) : String :=
  if symbols.isEmpty then ""
  else s!"\n{heading}:\n" ++ String.join (symbols.map fun symbol => s!"- {symbol.name}\n")

def structureText (project : Project) (file : String) : Action String := do
  match ← Action.attempt (Analysis.extractSymbols project file none false) with
  | .ok table =>
    return symbolList "Functions" (table.of "functions") ++ symbolList "Classes" (table.of "classes")
  | .error _ => return ""

def percentText (ratio : Value) : String :=
  ((ratio.number?.getD (.finite 0)).mul (.finite 100)).fixedText 1 ++ "%"

def metricsText (project : Project) (file : String) : Action String := do
  match ← Action.attempt (Analysis.analyzeComplexity project file) with
  | .ok complexity =>
    let items := ["Code metrics:",
      s!"- Line count: {complexity.lineCount}",
      s!"- Code lines: {complexity.codeLines}",
      s!"- Comment lines: {complexity.commentLines}",
      "- Comment ratio: " ++ percentText complexity.commentRatio,
      s!"- Functions: {complexity.functionCount}",
      s!"- Classes: {complexity.classCount}",
      s!"- Avg. function length: {complexity.functionLines.shortestText} lines",
      s!"- Cyclomatic complexity: {complexity.cyclomatic}"]
    return "\n" ++ String.join (items.map fun item => "            " ++ item ++ "\n") ++ "            "
  | .error _ => return ""

def landmarkText (landmarks : List Landmark) : String :=
  if landmarks.isEmpty then "None detected"
  else Text.joinLines (landmarks.map fun landmark => s!"- {landmark.path} ({landmark.kind})")

def overviewTexts (project : Project) : Action (String × String × String) := do
  match ← Action.attempt (Analysis.overview project 3 {}) with
  | .ok (overview, _) =>
    let languages := Text.joinLines (overview.languages.map fun (language, count) =>
      s!"- {language}: {count} files")
    return (languages, landmarkText overview.entryPoints, landmarkText overview.buildFiles)
  | .error _ =>
    return ("Error analyzing languages", "Error detecting entry points", "Error detecting build files")

def queryGuide : List String :=
  ["Tree-sitter queries use S-expression syntax to match patterns in code.",
    "",
    "Basic query syntax:",
    "- `(node_type)` - Match nodes of a specific type",
    "- `(node_type field: (child_type))` - Match nodes with specific field relationships",
    "- `@name` - Capture a node with a name",
    "- `#predicate` - Apply additional constraints",
    "",
    "Example query for Python functions:",
    "```",
    "(function_definition",
    "  name: (identifier) @function.name",
    "  parameters: (parameters) @function.params",
    "  body: (block) @function.body) @function.def",
    "```",
    "",
    "Please write a tree-sitter query to find:"]

def indented (texts : List String) : List String :=
  texts.map fun text => if text.isEmpty then "" else "        " ++ text

def render : Prompt → Action String
  | .explainQuery => return framed (indented queryGuide)
  | .codeReview project file => do
    let project ← Service.findProject project
    let content ← fileText project file
    let language ← languageText file
    let outline ← structureText project file
    return framed (lines [s!"Please review this {language} code file:"] ++ [""] ++
      lines (fenced language content) ++ [""] ++ lines [outline] ++ [""] ++
      lines ["Focus on:", "1. Code clarity and organization", "2. Potential bugs or issues",
        "3. Performance considerations", s!"4. Best practices for {language}"])
  | .explainCode project file focus => do
    let project ← Service.findProject project
    let content ← fileText project file
    let language ← languageText file
    let request := match focus with
      | some "" | none => ""
      | some focus => s!"\nPlease focus specifically on explaining: {focus}"
    return framed (lines [s!"Please explain this {language} code file:"] ++ [""] ++
      lines (fenced language content) ++ [""] ++
      lines ["Provide a clear explanation of:", "1. What this code does", "2. How it's structured",
        "3. Any important patterns or techniques used", request])
  | .suggestImprovements project file => do
    let project ← Service.findProject project
    let content ← fileText project file
    let language ← languageText file
    let metrics ← metricsText project file
    return framed (lines [s!"Please suggest improvements for this {language} code:"] ++ [""] ++
      lines (fenced language content) ++ [""] ++ lines [metrics] ++ [""] ++
      lines ["Suggest specific, actionable improvements for:", "1. Code quality and readability",
        "2. Performance optimization", "3. Error handling and robustness",
        s!"4. Following {language} best practices"] ++ [""] ++
      lines ["Where possible, provide code examples of your suggestions."])
  | .projectOverview project => do
    let project ← Service.findProject project
    let (languages, entries, builds) ← overviewTexts project
    return framed (lines ["Please analyze this codebase:"] ++ [""] ++
      lines [s!"Project name: {project.name}", s!"Path: {project.root.text}"] ++ [""] ++
      lines ["Languages:", languages] ++ [""] ++
      lines ["Possible entry points:", entries] ++ [""] ++
      lines ["Build configuration:", builds] ++ [""] ++
      lines ["Based on this information, please:",
        "1. Provide an overview of what this project seems to be",
        "2. Identify the main components and their relationships",
        "3. Suggest where to start exploring the codebase",
        "4. Identify any patterns or architectural approaches used"])

end Prompt

end Arborist.Server
