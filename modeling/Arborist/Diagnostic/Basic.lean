import Arborist.Data.Value
import Arborist.File.Path
import Arborist.Text.Base64
import Arborist.Tree.Outline

/-!
What is known of test runs: when each started and ended, its errors, details and artifacts.  A run
with an error stays an error.
-/

namespace Arborist

structure DiagnosticError where
  kind : String
  message : String
  trace : String := ""

def DiagnosticError.toValue (error : DiagnosticError) : Value :=
  .object ([("type", .string error.kind), ("message", .string error.message)] ++
    if error.trace.isEmpty then [] else [("traceback", .string error.trace)])

structure Diagnostic where
  testId : String
  startTime : Binary64
  endTime : Option Binary64 := none
  status : String := "pending"
  details : List (String × Value) := []
  errors : List DiagnosticError := []
  artifacts : List (String × Value) := []

namespace Diagnostic

def putEntry (key : String) (value : Value) : List (String × Value) → List (String × Value)
  | [] => [(key, value)]
  | (other, old) :: rest => if other == key then (other, value) :: rest else (other, old) :: putEntry key value rest

def addError (diagnostic : Diagnostic) (error : DiagnosticError) : Diagnostic :=
  { diagnostic with errors := diagnostic.errors ++ [error], status := "error" }

def addDetail (diagnostic : Diagnostic) (key : String) (value : Value) : Diagnostic :=
  { diagnostic with details := putEntry key value diagnostic.details }

def addArtifact (diagnostic : Diagnostic) (name : String) (content : Value) : Diagnostic :=
  { diagnostic with artifacts := putEntry name content diagnostic.artifacts }

/-- Ends a run; its status changes only if it has no errors. -/
def finish (diagnostic : Diagnostic) (time : Binary64) (status : String) : Diagnostic :=
  { diagnostic with
    endTime := some time
    status := if diagnostic.errors.isEmpty then status else diagnostic.status }

/-- How long a run took; unknown if it has not ended or ended at time zero. -/
def duration? (diagnostic : Diagnostic) : Option Binary64 :=
  match diagnostic.endTime with
  | some time => if (Value.float time).isVoid then none else some (time.sub diagnostic.startTime)
  | none => none

def errorsValue (diagnostic : Diagnostic) : Value := .list (diagnostic.errors.map DiagnosticError.toValue)

def fieldsValue (diagnostic : Diagnostic) : List (String × Value) :=
  [("test_id", .string diagnostic.testId), ("start_time", .float diagnostic.startTime),
    ("end_time", .ofOption .float diagnostic.endTime), ("status", .string diagnostic.status),
    ("details", .object diagnostic.details), ("errors", diagnostic.errorsValue),
    ("artifacts", .object diagnostic.artifacts)]

def toValue (diagnostic : Diagnostic) : Value :=
  .object (diagnostic.fieldsValue ++ [("duration", .ofOption .float diagnostic.duration?)])

end Diagnostic

inductive DiagnosticItem where
  | bytes (content : ByteArray)
  | path (place : Path)
  | node (found : Node)
  | diagnostic (run : Diagnostic)

def DiagnosticItem.toValue : DiagnosticItem → Value
  | .bytes content =>
    .object [("__bytes__", .bool true), ("value", .string (String.ofList (Text.base64 content.toList)))]
  | .path place => .string place.text
  | .node found =>
    .object [("type", .string found.kind), ("start_point", found.start.pair),
      ("end_point", found.stop.pair), ("_tsnode", .bool true)]
  | .diagnostic run => .object run.fieldsValue

abbrev DiagnosticLog := List (String × Diagnostic)

inductive SummaryLine where
  | separator (mark title : String)
  | line (text : String)

def SummaryLine.toValue : SummaryLine → Value
  | .separator mark title => .list [.string "sep", .string mark, .string title]
  | .line text => .list [.string "line", .string text]

namespace DiagnosticLog

def find? (log : DiagnosticLog) (id : String) : Option Diagnostic := log.lookup id

def put (diagnostic : Diagnostic) : DiagnosticLog → DiagnosticLog
  | [] => [(diagnostic.testId, diagnostic)]
  | (id, old) :: rest =>
    if id == diagnostic.testId then (id, diagnostic) :: rest else (id, old) :: put diagnostic rest

def start (log : DiagnosticLog) (id : String) (time : Binary64) : DiagnosticLog :=
  put { testId := id, startTime := time } log

def change (log : DiagnosticLog) (id : String) (step : Diagnostic → Diagnostic) : DiagnosticLog :=
  log.map fun (other, diagnostic) => (other, if other == id then step diagnostic else diagnostic)

def withStatus (log : DiagnosticLog) (status : String) : DiagnosticLog :=
  log.filter fun (_, diagnostic) => diagnostic.status == status

def errorLines (diagnostic : Diagnostic) : List SummaryLine :=
  ((List.range diagnostic.errors.length).zip diagnostic.errors).map fun (index, error) =>
    .line s!"  Error {index + 1}: {error.kind}: {error.message}"

/-- The summary at the end of all tests; nothing if there are no runs. -/
def summary (log : DiagnosticLog) : List SummaryLine :=
  let failed := log.withStatus "error"
  if log.isEmpty then []
  else
    [.separator "=" "Diagnostic Summary",
      .line s!"Collected {log.length} diagnostics, {failed.length} with errors"] ++
    if failed.isEmpty then []
    else .separator "-" "Error Details" ::
      failed.flatMap fun (id, diagnostic) => .line s!"- {id}" :: errorLines diagnostic

def report (log : DiagnosticLog) (timestamp : String) : Value :=
  .object [("timestamp", .string timestamp),
    ("diagnostics", .object (log.map fun (id, diagnostic) => (id, diagnostic.toValue))),
    ("summary", .object [("total", .nat log.length),
      ("errors", .nat (log.withStatus "error").length),
      ("completed", .nat (log.withStatus "completed").length)])]

end DiagnosticLog

end Arborist
