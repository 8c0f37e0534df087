import Arborist.Data.Compare

/-!
Limits on the number of results.  A limit is data that a caller gives, so it may be missing or no
number at all.
-/

namespace Arborist.Search

/-- The place that an index tells; negative ones count from the end. -/
def clampIndex (length : Nat) (index : Int) : Nat :=
  if index < 0 then (index + length).toNat else min index.toNat length

def itemRange (items : List α) (start stop : Int) : List α :=
  (items.take (clampIndex items.length stop)).drop (clampIndex items.length start)

def reaches (count : Nat) (limit : Value) : Except Fault Bool :=
  match limit.number? with
  | some most => .ok (most.le (.finite (count : Int)))
  | none => .error (.notComparable ">=" "int" limit.kindName)

def cutTo (limit : Value) (items : List α) : Except Fault (List α) :=
  match limit with
  | .null => .ok items
  | .int count => .ok (itemRange items 0 count)
  | .bool value => .ok (itemRange items 0 (if value then 1 else 0))
  | _ => .error .badSlice

/-- Results taken one by one until their number reaches the limit, which is looked at only after the
first. -/
def takeUntilReached (limit : Value) (items : List α) : List α :=
  match limit.number? with
  | some (.finite most) => items.take (max 1 most.ceil.toNat)
  | some (.infinite false) => items
  | _ => items.take 1

/-- Results taken one by one while their number does not reach the limit; none if there is no
limit. -/
def takeWhileBelow (limit : Value) (items : List α) : Except Fault (List α) :=
  match limit, items with
  | .null, _ => .ok items
  | _, [] => .ok []
  | limit, items =>
    match limit.number? with
    | some (.finite most) => .ok (items.take most.ceil.toNat)
    | some (.infinite false) => .ok items
    | some _ => .ok []
    | none => .error (.notComparable ">=" "int" limit.kindName)

def remaining (limit : Value) (count : Nat) : Except Fault Value :=
  match limit with
  | .null => .ok .null
  | .int most => .ok (.int (most - count))
  | .bool value => .ok (.int ((if value then 1 else 0) - count))
  | .float most => .ok (.float (most.sub (.finite (count : Int))))
  | other => .error (.badOperands "-" other.kindName "int")

end Arborist.Search
