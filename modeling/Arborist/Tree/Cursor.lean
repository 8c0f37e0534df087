import Arborist.Tree.Node

/-!
A place in a tree: the node there, and for each step from the start what stands beside it.
-/

namespace Arborist

structure Crumb where
  parent : NodeLabel
  before : List Node
  after : List Node
deriving Inhabited

structure Cursor where
  node : Node
  trail : List Crumb := []
deriving Inhabited

namespace Cursor

/-- A cursor that cannot leave what is below its start. -/
def start (node : Node) : Cursor := ⟨node, []⟩

def firstChild? (cursor : Cursor) : Option Cursor :=
  match cursor.node with
  | .mk _ [] => none
  | .mk label (child :: others) => some ⟨child, ⟨label, [], others⟩ :: cursor.trail⟩

def nextSibling? (cursor : Cursor) : Option Cursor :=
  match cursor.trail with
  | ⟨parent, before, next :: after⟩ :: trail =>
    some ⟨next, ⟨parent, cursor.node :: before, after⟩ :: trail⟩
  | _ => none

def parent? (cursor : Cursor) : Option Cursor :=
  match cursor.trail with
  | [] => none
  | ⟨parent, before, after⟩ :: trail => some ⟨.mk parent (before.reverse ++ cursor.node :: after), trail⟩

def child? (cursor : Cursor) (index : Nat) : Option Cursor :=
  match index with
  | 0 => cursor.firstChild?
  | index + 1 => (cursor.child? index).bind nextSibling?

mutual

def route? (number : Nat) : Node → Option (List Nat)
  | .mk label children => if label.id == number then some [] else routes? number 0 children

def routes? (number index : Nat) : List Node → Option (List Nat)
  | [] => none
  | node :: rest =>
    match route? number node with
    | some route => some (index :: route)
    | none => routes? number (index + 1) rest

end

def follow (cursor : Cursor) : List Nat → Option Cursor
  | [] => some cursor
  | index :: rest => (cursor.child? index).bind fun next => next.follow rest

/-- The cursor at a numbered node of a tree, from which all of the tree can be reached. -/
def atNode? (root : Node) (number : Nat) : Option Cursor :=
  (route? number root).bind (start root).follow

end Cursor

end Arborist
