import Arborist.Measure.Coverage

/-!
Whether benches check themselves: each has a verdict, by what its runs returned and where they spent
their time.
-/

namespace Arborist.Measure

open Fields

inductive Verdict where
  | repoModified
  | error
  | returnsNone
  | unstable
  | returnsInput
  | lowRepoTime
  | tooFast
  | paramInvariant
  | okUnparam
  | ok
deriving DecidableEq, Repr

namespace Verdict

def text : Verdict → String
  | .repoModified => "repo-modified"
  | .error => "error"
  | .returnsNone => "returns-none"
  | .unstable => "unstable"
  | .returnsInput => "returns-input"
  | .lowRepoTime => "low-repo-time"
  | .tooFast => "too-fast"
  | .paramInvariant => "param-invariant"
  | .okUnparam => "ok-unparam"
  | .ok => "ok"

def isFine : Verdict → Bool
  | .ok | .okUnparam => true
  | _ => false

end Verdict

structure Observation where
  returned : Option String
  repeated : List Value
  parameters : List Value
  byParameter : List Value
  repoShares : List Binary64
  milliseconds : List Binary64

namespace Observation

def numbersAt (fields : Value) (name : String) : List Binary64 :=
  (entries fields name).map fun (_, value) => (value.number?).getD (.finite 0)

def ofDocument (document : Value) : Observation :=
  { returned := text? document "ret_type"
    repeated := items document "fp_stable"
    parameters := items document "param_fps"
    byParameter := (entries document "fp_by_param").map Prod.snd
    repoShares := numbersAt document "repo_frac"
    milliseconds := numbersAt document "repo_tt_ms" }

def allSame : List Value → Bool
  | [] => true
  | first :: rest => rest.all first.sameAs

def leastShare (observation : Observation) : Binary64 :=
  match observation.repoShares with
  | [] => .finite 0
  | first :: rest => rest.foldl (fun least share => if share.lt least then share else least) first

def meanTime (observation : Observation) : Binary64 :=
  match observation.milliseconds with
  | [] => .finite 0
  | times =>
    let total := times.foldl Binary64.add (.finite 0)
    match total.toRat? with
    | some total => .quotient total times.length
    | none => total

def failed (observation : Observation) : Bool :=
  match observation.returned with
  | none => true
  | some kind => kind.isEmpty || kind.toList.head? == some '<'

def isUnstable (observation : Observation) : Bool :=
  observation.repeated.isEmpty || !allSame observation.repeated

def returnsInput (observation : Observation) : Bool :=
  match observation.repeated with
  | first :: _ => observation.parameters.any first.sameAs
  | [] => false

def verdict (observation : Observation) (repoModified : Bool) : Verdict :=
  if repoModified then .repoModified
  else if observation.failed then .error
  else if observation.returned = some "NoneType" then .returnsNone
  else if observation.isUnstable then .unstable
  else if observation.returnsInput then .returnsInput
  else if !observation.repoShares.isEmpty && observation.leastShare.lt (.finite (1 / 2)) then .lowRepoTime
  else if !observation.milliseconds.isEmpty && observation.meanTime.lt (.finite 1) then .tooFast
  else if observation.byParameter.length < 2 then .okUnparam
  else if allSame observation.byParameter then .paramInvariant
  else .ok

end Observation

structure SelfCheck where
  bench : String
  observation : Observation
  verdict : Verdict

namespace SelfCheck

def ofDocument (document : Value) (repoModified : Bool) : List SelfCheck :=
  (entries document "semcheck").filterMap fun (bench, row) =>
    match row with
    | .map _ =>
      let observation := Observation.ofDocument row
      some ⟨bench, observation, observation.verdict repoModified⟩
    | _ => none

def row (check : SelfCheck) : String :=
  let mark := if check.verdict.isFine then " " else "*"
  let name := padRight 32 check.bench
  let verdict := padRight 16 check.verdict.text
  let returned := match check.observation.returned with
    | some "" | none => "?"
    | some kind => kind
  let share := (check.observation.leastShare.mul (.finite 100)).fixedText 0
  let time := check.observation.meanTime.fixedText 1
  s!"  {mark} {name} {verdict} ({returned}, repo {share}%) {time}ms"

def legend : List String := [
  "  returns-none: run() has no return — collect and return the call results",
  "  unstable: seed RNG in setup; avoid time/uuid/id in the return",
  "  returns-input: return repo output, not the parameter value",
  "  low-repo-time: <50% of run() time is in repo code — move glue to setup",
  "  param-invariant: return something derived from run()'s work, not setup",
  "  repo-modified: revert edits to repo files (git checkout -- <path>)"]

def table (checks : List SelfCheck) : List String :=
  if checks.isEmpty then []
  else
    let sorted := checks.mergeSort fun left right => left.bench ≤ right.bench
    ["", "self-check (* = fix needed):"] ++ legend ++
      ((sorted.filter fun check => !check.verdict.isFine) ++
        sorted.filter fun check => check.verdict.isFine).map row

def failingCount (checks : List SelfCheck) : Nat :=
  (checks.filter fun check => !check.verdict.isFine).length

end SelfCheck

end Arborist.Measure
