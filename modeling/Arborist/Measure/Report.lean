import Arborist.File.Read
import Arborist.Measure.History
import Arborist.Measure.SelfCheck
import Arborist.Measure.TimeShare

/-!
The report of a measuring round: the coverage, the shares of time, the self-checks, and what the
history says to them.
-/

namespace Arborist.Measure

open Fields

inductive Outcome where
  | finished (output errors : String) (code : Int)
  | notStarted (message : String)

structure Outcomes where
  coverage : Outcome
  timeShares : Outcome
  selfChecks : Outcome
  changes : Outcome

structure Report where
  exitCode : Option Int
  lines : List String
  errors : String
  round : Option Value

/-- What a program's last line says, or why nothing is known, and what it wrote as errors. -/
def lastDocument (label : String) : Outcome → Option Value × String
  | .notStarted message => (none, s!"[{label} runner: RuntimeError: {message}]\n")
  | .finished output errors _ =>
    match (Text.boundaryLines (Text.strip output.toList)).getLast? with
    | none => (none, errors)
    | some line =>
      let line := String.ofList line
      match Json.parse line with
      | .error fault => (none, errors ++ s!"[{label} runner: JSONDecodeError: {fault.message line}]\n")
      | .ok (.map entries) => (some (.map entries), errors)
      | .ok other =>
        (none, errors ++ s!"[{label} runner: AttributeError: '{other.kindName}' object has no attribute 'get']\n")

def changedFiles : Outcome → List String
  | .notStarted _ => []
  | .finished output _ _ =>
    let lines := (Text.boundaryLines output.toList).filter fun line => !(Text.strip line).isEmpty
    lines.map fun line => String.ofList ((line.filter fun c => !Text.isLineEnd c).drop 3)

def changeLines (files : List String) : List String :=
  if files.isEmpty then []
  else ["", s!"** repo modified ({files.length} file(s)) — revert these; only microbench.py is yours to edit:"] ++
    files.map fun file => "   " ++ file

def definesBench (line : List Char) : Bool :=
  match Text.cutAt? "def bench_".toList line with
  | some ([], rest) =>
    let name := rest.takeWhile Text.isWord
    let after := Text.stripLeft (rest.dropWhile Text.isWord)
    !name.isEmpty && after.head? == some '('
  | _ => false

def countBenches (text : List Char) : Nat := ((Text.feedLines text).filter definesBench).length

def summaryLine (round benches : Nat) (coverage : Coverage) (shares : List TimeShare) (checks : List SelfCheck)
    (seconds : Binary64) : String :=
  let below := TimeShare.belowCount shares
  let valid := TimeShare.validCount shares
  let failing := SelfCheck.failingCount checks
  let covered := coverage.percent.fixedText 1
  let time := seconds.fixedText 1
  let parts := [s!"round {round}: {benches} benches", s!"{covered}% covered"] ++
    (if shares.isEmpty then [] else [s!"{below}/{valid} below repo_time 45%"]) ++
    (if checks.isEmpty then [] else [s!"{failing}/{checks.length} not self-checking"]) ++
    [s!"measured in {time}s"]
  "[" ++ ", ".intercalate parts ++ "]"

def roundEntry (history : History) (benches : Nat) (coverage : Coverage) (shares : List TimeShare)
    (checks : List SelfCheck) (now seconds : Binary64) : Value :=
  let since := match history.lastTime? with
    | some time => (now.sub time).roundPlaces 2
    | none => .finite 0
  .object [("round", .nat history.round), ("ts", .float now), ("wall_since_prev_s", .float since),
    ("coverage_pct", .float coverage.percent), ("covered_lines", .int coverage.covered),
    ("num_statements", .int coverage.statements), ("n_bench_fns", .nat benches),
    ("n_bench_errors", .nat coverage.errors.length), ("cov_measure_s", .float (seconds.roundPlaces 3)),
    ("repo_time_pct", .object (shares.map fun share => (share.bench, .float share.percent))),
    ("n_below_repo_time", .ofOption .nat (TimeShare.belowCount? shares)),
    ("semcheck", .object (checks.map fun check => (check.bench, .string check.verdict.text))),
    ("n_not_self_checking", .nat (SelfCheck.failingCount checks))]

def repository : Path := Path.ofString "/repo"

def Coverage.report (coverage : Coverage) (outcomes : Outcomes) (errors : String) (history : History)
    (benches : Nat) (now seconds : Binary64) : Report :=
  let (shareDocument, shareErrors) := lastDocument "repotime" outcomes.timeShares
  let (checkDocument, checkErrors) := lastDocument "semcheck" outcomes.selfChecks
  let changed := changedFiles outcomes.changes
  let shares := TimeShare.ofDocument (shareDocument.getD .null)
  let checks := SelfCheck.ofDocument (checkDocument.getD .null) (!changed.isEmpty)
  let stopLines := match stop? coverage.percent history.counts (TimeShare.belowCount? shares) with
    | some stop => ["", stop.line]
    | none => []
  { exitCode := none
    lines := coverage.table ++ coverage.errorLines ++ TimeShare.table shares ++ changeLines changed ++
      SelfCheck.table checks ++ ["", summaryLine history.round benches coverage shares checks seconds] ++
      stopLines
    errors := errors ++ shareErrors ++ checkErrors
    round := history.rounds.map fun _ => roundEntry history benches coverage shares checks now seconds }

def failedReport (output errors : String) (code : Int) : Report :=
  { exitCode := some (if code = 0 then 1 else code)
    lines := [s!"coverage measurement failed (exit {code})", output]
    errors
    round := none }

structure Files where
  coverage : Option String
  benches : String
  history : String

def report (files : Files) (outcomes : Outcomes) (now seconds : Binary64) : Except Fault Report :=
  match outcomes.coverage with
  | .notStarted message => .error (.runFailed message)
  | .finished output errors code =>
    match code, files.coverage with
    | 0, some text =>
      match Json.parse text with
      | .error fault => .error (.invalidJson (fault.message text))
      | .ok document =>
        .ok ((Coverage.ofDocument repository document).report outcomes errors (.ofText files.history)
          (countBenches files.benches.toList) now seconds)
    | _, _ => .ok (failedReport output errors code)

def Report.extendHistory (report : Report) (history : String) : String :=
  match report.round with
  | some round => history ++ Json.render round ++ "\n"
  | none => history

end Arborist.Measure
