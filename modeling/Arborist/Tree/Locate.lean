import Arborist.Tree.Walk
import Arborist.Text.Find

/-!
Nodes by their place: at a row and column, inside one another, around a piece of text, and the way
from one node down to another.
-/

namespace Arborist

structure Position where
  row : Int
  column : Int
deriving DecidableEq, Repr

namespace Position

def ofPoint (point : Point) : Position := ⟨point.row, point.column⟩

def le (left right : Position) : Bool :=
  left.row < right.row || (left.row == right.row && left.column ≤ right.column)

end Position

namespace Node

def covers (node : Node) (position : Position) : Bool :=
  (Position.ofPoint node.start).le position && position.le (Position.ofPoint node.stop)

/-- Whether a position lies between a node's first and last row and column, each by itself. -/
def boxes (node : Node) (position : Position) : Bool :=
  (node.start.row : Int) ≤ position.row && position.row ≤ node.stop.row &&
    (node.start.column : Int) ≤ position.column && position.column ≤ node.stop.column

def functionNameAt? (node : Node) (position : Position) : Option Node :=
  if node.kind == "function_definition" then
    node.children.find? fun child =>
      (child.kind == "identifier" || child.kind == "name") && child.boxes position
  else none

end Node

namespace Cursor

def coveringSibling? (position : Position) (cursor : Cursor) : Option Cursor :=
  match _ : cursor.nextSibling? with
  | none => none
  | some next =>
    if next.node.covers position then some next else next.coveringSibling? position
termination_by cursor.remaining
decreasing_by
  exact Nat.lt_of_le_of_lt (remaining_of_nextSibling? ‹_›) (ahead_lt_remaining cursor)

/-- One move of a search: down to the first child if it covers the position, else on to a later
sibling of the node itself that does.  There is none from a node without children. -/
def narrower? (position : Position) (cursor : Cursor) : Option Cursor :=
  match cursor.firstChild? with
  | none => none
  | some child =>
    if child.node.covers position then some child else cursor.coveringSibling? position

theorem remaining_of_coveringSibling? {position : Position} {cursor next : Cursor}
    (found : cursor.coveringSibling? position = some next) : next.remaining < cursor.remaining := by
  fun_induction coveringSibling? position cursor with
  | case1 cursor last => cases found
  | case2 cursor sibling aside covered =>
      cases found
      exact Nat.lt_of_le_of_lt (remaining_of_nextSibling? aside) (ahead_lt_remaining cursor)
  | case3 cursor sibling aside uncovered ih =>
      apply Nat.lt_trans (ih found)
      exact Nat.lt_of_le_of_lt (remaining_of_nextSibling? aside) (ahead_lt_remaining cursor)

theorem remaining_of_narrower? {position : Position} {cursor next : Cursor}
    (found : cursor.narrower? position = some next) : next.remaining < cursor.remaining := by
  unfold narrower? at found
  split at found
  · cases found
  next child down =>
    split at found
    · cases found
      exact remaining_of_firstChild? down
    · exact remaining_of_coveringSibling? found

def descend (position : Position) (cursor : Cursor) : Node :=
  match _ : cursor.narrower? position with
  | none => cursor.node
  | some next =>
    match next.node.functionNameAt? position with
    | some name => name
    | none => next.descend position
termination_by cursor.remaining
decreasing_by exact remaining_of_narrower? ‹_›

end Cursor

namespace Node

def atPosition? (root : Node) (position : Position) : Option Node :=
  if root.covers position then
    match root.functionNameAt? position with
    | some name => some name
    | none => some ((Cursor.start root).descend position)
  else none

/-- The kinds and fields from a node down to another one.  If the first is not above the second the
way begins below the root of the tree. -/
def pathIn (tree : Node) (source target : Node) : List (String × Option String) :=
  if source.id == target.id then []
  else
    match ancestry? target.id tree with
    | none => []
    | some trail =>
      let below := trail.takeWhile fun node => node.id != source.id
      let reached := below.length < trail.length
      let steps := if reached then below else below.dropLast
      let path := steps.reverse.map fun node => (node.kind, node.field)
      if reached && !path.isEmpty then (source.kind, none) :: path else path

def holds (container : Node) (position : Position) : Bool :=
  !(position.row < container.start.row || (container.stop.row : Int) < position.row ||
    (position.row == container.start.row && position.column < container.start.column) ||
    (position.row == container.stop.row && (container.stop.column : Int) < position.column))

/-- Whether a node is another one or has both its ends in it. -/
def isInside (node container : Node) : Bool :=
  node.id == container.id ||
    (container.holds (.ofPoint node.start) && container.holds (.ofPoint node.stop))

def mentions (source : ByteArray) (text : List UInt8) (node : Node) : Bool :=
  Text.occursIn text (node.slice source).toList

mutual

/-- The innermost node whose extent holds the bytes, by way of first children that do. -/
def withText? (source : ByteArray) (text : List UInt8) : Node → Option Node
  | .mk label children =>
    if mentions source text (.mk label children) then
      match firstWithText? source text children with
      | some found => some found
      | none => some (.mk label children)
    else none

def firstWithText? (source : ByteArray) (text : List UInt8) : List Node → Option Node
  | [] => none
  | node :: rest =>
    match withText? source text node with
    | some found => some found
    | none => firstWithText? source text rest

end

end Node

end Arborist
