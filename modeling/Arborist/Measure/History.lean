import Arborist.Data.Compare
import Arborist.Data.Fields
import Arborist.Data.Json
import Arborist.Text.Lines

/-!
The history of measuring rounds, one line of data a round, and when it says that there is nothing
more to gain.
-/

namespace Arborist.Measure

open Fields

structure History where
  lineCount : Nat
  rounds : Option (List Value)

namespace History

def linesOf (text : String) : List String :=
  ((Text.boundaryLines text.toList).map String.ofList).filter fun line => !(Text.stripString line).isEmpty

def roundOf (line : String) : Option Value :=
  match Json.parse line with
  | .ok (.map entries) => some (.map entries)
  | _ => none

def ofText (text : String) : History :=
  let lines := linesOf text
  ⟨lines.length, lines.mapM roundOf⟩

def round (history : History) : Nat := history.lineCount + 1

def lastTime? (history : History) : Option Binary64 :=
  ((history.rounds.getD []).getLast?).bind fun round => (given? round "ts").bind Value.number?

def counts (history : History) : List Int :=
  (history.rounds.getD []).filterMap fun round => int? round "n_below_repo_time"

end History

/-- The smallest count so far and the number of rounds since it first came. -/
structure Best where
  count : Int
  age : Nat
deriving DecidableEq, Repr

def Best.next (best : Option Best) (count : Int) : Option Best :=
  match best with
  | none => some ⟨count, 0⟩
  | some best => some (if count < best.count then ⟨count, 0⟩ else ⟨best.count, best.age + 1⟩)

def bestOf (counts : List Int) : Option Best := counts.foldl Best.next none

def patience : Nat := 3

/-- The best count, if it has not been bettered for long. -/
def plateau? (counts : List Int) : Option Best := (bestOf counts).filter fun best => patience ≤ best.age

inductive Stop where
  | noneBelow
  | plateau (best : Best)
deriving DecidableEq, Repr

def neededCoverage : Binary64 := .finite 50

def stop? (coverage : Binary64) (earlier : List Int) (current : Option Nat) : Option Stop :=
  match current with
  | none => none
  | some current =>
    if coverage.lt neededCoverage then none
    else if current = 0 then some .noneBelow
    else (plateau? (earlier ++ [(current : Int)])).map .plateau

def Stop.line : Stop → String
  | .noneBelow => ">>> STOP: repo_time converged (0 below). Finalize microbench.py now. <<<"
  | .plateau best =>
    s!">>> STOP: repo_time converged (no improvement in {best.age} rounds; best {best.count} below). " ++
      "Finalize microbench.py now. <<<"

end Arborist.Measure
