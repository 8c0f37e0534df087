import Arborist.Analysis.Symbol
import Arborist.File.Read

/-!
How complex a file is: its lines by kind, its functions and classes, and the number of decisions.
-/

namespace Arborist

structure Complexity where
  lineCount : Nat
  emptyLines : Nat
  commentLines : Nat
  functionCount : Nat
  classCount : Nat
  cyclomatic : Nat
  language : String

namespace Complexity

def codeLines (complexity : Complexity) : Int :=
  (complexity.lineCount : Int) - complexity.emptyLines - complexity.commentLines

/-- The share of comment lines; a file without lines has a plain zero. -/
def commentRatio (complexity : Complexity) : Value :=
  if complexity.lineCount = 0 then .int 0
  else .float (Binary64.quotient complexity.commentLines complexity.lineCount)

/-- Code lines per function, or all of them if there are no functions, to two places. -/
def functionLines (complexity : Complexity) : Binary64 :=
  let average := if complexity.functionCount = 0 then Binary64.ofInt complexity.codeLines
    else Binary64.quotient complexity.codeLines complexity.functionCount
  average.roundPlaces 2

def toValue (complexity : Complexity) : Value :=
  .object [("line_count", .nat complexity.lineCount), ("code_lines", .int complexity.codeLines),
    ("empty_lines", .nat complexity.emptyLines), ("comment_lines", .nat complexity.commentLines),
    ("comment_ratio", complexity.commentRatio), ("function_count", .nat complexity.functionCount),
    ("class_count", .nat complexity.classCount),
    ("avg_function_lines", .float complexity.functionLines),
    ("cyclomatic_complexity", .nat complexity.cyclomatic), ("language", .string complexity.language)]

end Complexity

namespace Analysis

def decisionKinds (language : String) : List String :=
  if ["python", "javascript", "typescript"].contains language then
    ["if_statement", "for_statement", "while_statement", "try_statement"]
  else []

mutual

def countKinds (kinds : List String) : Node → Nat
  | .mk label children => (if kinds.contains label.kind then 1 else 0) + countKindsIn kinds children

def countKindsIn (kinds : List String) : List Node → Nat
  | [] => 0
  | node :: rest => countKinds kinds node + countKindsIn kinds rest

end

def isEmptyLine (line : String) : Bool := (Text.strip line.toList).isEmpty

/-- The complexity of a file of a project; methods do not count as functions. -/
def analyzeComplexity (project : Project) (file : String) : Action Complexity := do
  let path ← Service.allowedPath project file
  match (← get).registry.languageOf? file with
  | none => throw (.languageUnknownFor file)
  | some language =>
    Action.mapFault
      (do
        Service.loadLanguage language
        let parsed ← Service.parseCached path language
        let lines ← Action.onStore fun store => File.readLines store path.text
        let table ← extractSymbols project file (some ["functions", "classes"]) true
        return {
          lineCount := lines.length
          emptyLines := lines.countP isEmptyLine
          commentLines := match commentStart? language with
            | some start => File.countCommentLines lines start
            | none => 0
          functionCount := (table.of "functions").length
          classCount := (table.of "classes").length
          cyclomatic := 1 + countKinds (decisionKinds language) parsed.tree.root
          language })
      (.measuring file)

end Analysis

end Arborist
