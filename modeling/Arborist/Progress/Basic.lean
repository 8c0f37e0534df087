import Arborist.Fault
import Arborist.Number.Decimal

/-!
Progress that is reported to a listener.  A scope counts steps up to a total and always ends at it.
-/

namespace Arborist

/-- Who listens: nobody, one who takes every report, one who takes it and then fails, or one who
cannot take any. -/
inductive Listener where
  | absent
  | full
  | failing
  | bare
deriving DecidableEq, Repr, Inhabited

def Listener.hears : Listener → Bool
  | .full | .failing => true
  | .absent | .bare => false

inductive Report where
  | progress (current total : Int)
  | message (level text : String)
deriving DecidableEq, Repr

def Report.toValue : Report → Value
  | .progress current total => .list [.string "report_progress", .int current, .int total]
  | .message level text => .list [.string level, .string text]

/-- Where nobody listens, the percentage is noted, which has to be a number of the format. -/
def percentFault? (current total : Int) : Option Fault :=
  if total ≤ 0 then none
  else match Binary64.quotient current total with
    | .infinite _ => some .quotientTooLarge
    | share =>
      match share.mul (.finite 100) with
      | .infinite _ => some .infiniteInteger
      | _ => none

structure ProgressContext where
  listener : Listener := .absent
  currentStep : Int := 0
  totalSteps : Int := 0
  heard : List Report := []
deriving Inhabited

namespace ProgressContext

def hear (context : ProgressContext) (report : Report) : ProgressContext :=
  if context.listener.hears then { context with heard := context.heard ++ [report] } else context

def report (context : ProgressContext) (current total : Int) : ProgressContext :=
  { context with currentStep := current, totalSteps := total }.hear (.progress current total)

/-- What the last report raises, though it has been recorded. -/
def failure? (context : ProgressContext) : Option Fault :=
  if context.listener.hears then none else percentFault? context.currentStep context.totalSteps

def tell (context : ProgressContext) (level text : String) : ProgressContext :=
  context.hear (.message level text)

end ProgressContext

structure ProgressScope where
  context : ProgressContext
  total : Int
  current : Int := 0

namespace ProgressScope

def reported (scope : ProgressScope) (current : Int) : ProgressScope :=
  { scope with current, context := scope.context.report current scope.total }

def update (scope : ProgressScope) (step : Int) : ProgressScope :=
  scope.reported (min (scope.current + step) scope.total)

def setProgress (scope : ProgressScope) (current : Int) : ProgressScope :=
  scope.reported (max 0 (min current scope.total))

def openScope (context : ProgressContext) (total : Int) (description : String) : ProgressScope :=
  ProgressScope.update { context := context.tell "info" s!"Starting: {description}", total } 0

def close (scope : ProgressScope) (description : String) : ProgressScope :=
  let ended := if scope.current < scope.total then scope.setProgress scope.total else scope
  { ended with context := ended.context.tell "info" s!"Completed: {description}" }

end ProgressScope

inductive ProgressStep where
  | update (step : Int)
  | setProgress (current : Int)
  | raise (message : String)

namespace ProgressScope

def perform (scope : ProgressScope) : ProgressStep → ProgressScope × Option Fault
  | .update step =>
    let next := scope.update step
    (next, next.context.failure?)
  | .setProgress current =>
    let next := scope.setProgress current
    (next, next.context.failure?)
  | .raise message => (scope, some (.raised message))

def runSteps (scope : ProgressScope) : List ProgressStep → ProgressScope × List Int × Option Fault
  | [] => (scope, [], none)
  | step :: rest =>
    match scope.perform step with
    | (next, some fault) => (next, [], some fault)
    | (next, none) =>
      let (last, trace, raised) := next.runSteps rest
      (last, next.current :: trace, raised)

end ProgressScope

/-- A whole scope, which is closed even if one of its steps raises. -/
def ProgressContext.runScope (context : ProgressContext) (total : Int) (description : String)
    (steps : List ProgressStep) : ProgressScope × List Int × Option Fault :=
  let (scope, trace, raised) := (ProgressScope.openScope context total description).runSteps steps
  (scope.close description, trace, raised)

end Arborist
