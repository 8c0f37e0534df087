import Arborist.Data.Compare
import Arborist.Data.Fields
import Arborist.File.Path

/-!
How much of each file is covered, and a table of it: the least covered files first.
-/

namespace Arborist.Measure

open Fields

structure FileCoverage where
  name : String
  statements : Int
  missing : Int
  percent : Binary64
  missingLines : List String

structure Coverage where
  files : List FileCoverage
  statements : Int
  covered : Int
  percent : Binary64
  errors : List (String × String)

def numberAt (fields : Value) (name : String) : Binary64 :=
  ((given? fields name).bind Value.number?).getD (.finite 0)

def nameFrom (directory : Path) (name : String) : String :=
  let path := Path.ofString name
  if path.anchor = .relative then name
  else
    let components := Path.withoutDots path.components
    match (Path.absolute components).relativeTo? directory with
    | some relative => relative.text
    | none => "/".intercalate (directory.components.map (fun _ => "..") ++ components)

def FileCoverage.ofEntry (directory : Path) (entry : String × Value) : FileCoverage :=
  let summary := raw entry.2 "summary" .null
  { name := nameFrom directory entry.1
    statements := int summary "num_statements" 0
    missing := int summary "missing_lines" 0
    percent := numberAt summary "percent_covered"
    missingLines := texts entry.2 "missing_lines" }

/-- What a coverage document says; what it leaves out counts as zero. -/
def Coverage.ofDocument (directory : Path) (document : Value) : Coverage :=
  let totals := raw document "totals" .null
  { files := (entries document "files").map (.ofEntry directory)
    statements := int totals "num_statements" 0
    covered := int totals "covered_lines" 0
    percent := numberAt totals "percent_covered"
    errors := (entries (raw document "meta" .null) "_pti_bench_errors").map fun (name, error) =>
      (name, error.text) }

def FileCoverage.before (left right : FileCoverage) : Bool :=
  if left.percent.lt right.percent then true
  else if right.percent.lt left.percent then false
  else right.missing ≤ left.missing

def maxNameWidth : Nat := 60

def nameWidth (names : List String) : Nat :=
  min maxNameWidth (names.foldl (fun width name => max width name.length) "Name".length)

def missingText (lines : List String) : String :=
  ",".intercalate (lines.take 12) ++ if 12 < lines.length then "…" else ""

def percentCell (percent : Binary64) : String := padLeft 4 (percent.fixedText 0) ++ "%"

def countCells (width : Nat) (name : String) (statements missing : Int) (percent : Binary64) : String :=
  padRight width (String.ofList (name.toList.take width)) ++ "  " ++ padLeft 5 (toString statements) ++ "  " ++
    padLeft 4 (toString missing) ++ "  " ++ percentCell percent

def FileCoverage.row (width : Nat) (file : FileCoverage) : String :=
  countCells width file.name file.statements file.missing file.percent ++ "  " ++
    missingText file.missingLines

def rule (width : Nat) : String := String.ofList (List.replicate (width + 42) '-')

def Coverage.totalRow (width : Nat) (coverage : Coverage) : String :=
  padRight width "TOTAL" ++ "  " ++ padLeft 5 (toString coverage.statements) ++ "  " ++
    padLeft 4 (toString (coverage.statements - coverage.covered)) ++ "  " ++ percentCell coverage.percent

def Coverage.table (coverage : Coverage) : List String :=
  let width := nameWidth (coverage.files.map FileCoverage.name)
  let files := coverage.files.mergeSort FileCoverage.before
  [padRight width "Name" ++ "  Stmts  Miss  Cover  Missing", rule width] ++
    files.map (FileCoverage.row width) ++ [rule width, coverage.totalRow width]

def Coverage.errorLines (coverage : Coverage) : List String :=
  if coverage.errors.isEmpty then []
  else ["", s!"{coverage.errors.length} bench error(s):"] ++
    (coverage.errors.take 8).map fun (name, error) => s!"  {name}: {error}"

end Arborist.Measure
