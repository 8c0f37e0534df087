import Arborist.Measure.Coverage

/-!
Which share of its time each bench spends in the code that it measures.  A negative share stands for
a bench that failed.
-/

namespace Arborist.Measure

open Fields

structure TimeShare where
  bench : String
  percent : Binary64
  hotSpots : List (Binary64 × String)

def lowestShare : Binary64 := .finite 45

namespace TimeShare

def isValid (share : TimeShare) : Bool := Binary64.le (.finite 0) share.percent

def isBelow (share : TimeShare) : Bool := share.isValid && share.percent.lt lowestShare

def hotSpotOf (item : Value) : Binary64 × String :=
  match itemsOf item with
  | percent :: name :: _ => ((percent.number?).getD (.finite 0), name.text)
  | _ => (.finite 0, "")

def ofDocument (document : Value) : List TimeShare :=
  let hot := raw document "hot_ext" .null
  (entries document "repo_time_pct").map fun (bench, percent) =>
    { bench
      percent := (percent.number?).getD (.finite 0)
      hotSpots := (items hot bench).map hotSpotOf }

def hotText (share : TimeShare) : String :=
  if share.hotSpots.isEmpty then ""
  else
    let spots := share.hotSpots.map fun (percent, name) => name ++ " " ++ percent.fixedText 0 ++ "%"
    " (hot: " ++ " ".intercalate spots ++ ")"

def row (share : TimeShare) : String :=
  let name := padRight 32 share.bench
  if !share.isValid then s!"    {name}   0.0%  <error>"
  else
    let percent := padLeft 5 (share.percent.fixedText 1)
    if share.isBelow then s!"  * {name} {percent}%{share.hotText}" else s!"    {name} {percent}%"

def table (shares : List TimeShare) : List String :=
  if shares.isEmpty then []
  else
    ["", "repo_time (target 50%; * = below 45%):"] ++
      (shares.mergeSort fun left right => left.percent.le right.percent).map row

def validCount (shares : List TimeShare) : Nat := (shares.filter isValid).length

def belowCount (shares : List TimeShare) : Nat := (shares.filter isBelow).length

/-- The number of benches below the lowest share; unknown if no bench has a share. -/
def belowCount? (shares : List TimeShare) : Option Nat :=
  if validCount shares = 0 then none else some (belowCount shares)

end TimeShare

end Arborist.Measure
