import Arborist.Text.Utf8

/-!
Concrete trees of source text.  A node has a kind, its extent in bytes and in rows and columns, and
the name of the field it fills in its parent.  Nodes are told apart by their number, which is their
place in preorder.
-/

namespace Arborist

structure Point where
  row : Nat
  column : Nat
deriving DecidableEq, Repr, Inhabited

def Point.le (left right : Point) : Bool :=
  left.row < right.row || (left.row == right.row && left.column ≤ right.column)

structure NodeLabel where
  id : Nat
  kind : String
  startByte : Nat
  endByte : Nat
  start : Point
  stop : Point
  named : Bool
  field : Option String
deriving DecidableEq, Repr, Inhabited

inductive Node where
  | mk (label : NodeLabel) (children : List Node)
deriving Inhabited

namespace Node

def label : Node → NodeLabel
  | .mk label _ => label

def children : Node → List Node
  | .mk _ children => children

def id (node : Node) : Nat := node.label.id

def kind (node : Node) : String := node.label.kind

def startByte (node : Node) : Nat := node.label.startByte

def endByte (node : Node) : Nat := node.label.endByte

def start (node : Node) : Point := node.label.start

def stop (node : Node) : Point := node.label.stop

def field (node : Node) : Option String := node.label.field

def isNamed (node : Node) : Bool := node.label.named

mutual

def size : Node → Nat
  | .mk _ children => 1 + sizes children

def sizes : List Node → Nat
  | [] => 0
  | node :: rest => size node + sizes rest

end

theorem sizes_append (left right : List Node) : sizes (left ++ right) = sizes left + sizes right := by
  induction left with
  | nil => rw [List.nil_append, sizes, Nat.zero_add]
  | cons node rest ih => rw [List.cons_append, sizes, sizes, ih, Nat.add_assoc]

mutual

def preorder : Node → List Node
  | .mk label children => .mk label children :: preorders children

def preorders : List Node → List Node
  | [] => []
  | node :: rest => preorder node ++ preorders rest

end

def find? (root : Node) (number : Nat) : Option Node :=
  root.preorder.find? fun node => node.id == number

mutual

def ancestry? (number : Nat) : Node → Option (List Node)
  | .mk label children =>
    if label.id == number then some [.mk label children]
    else (ancestries? number children).map fun trail => trail ++ [.mk label children]

def ancestries? (number : Nat) : List Node → Option (List Node)
  | [] => none
  | node :: rest =>
    match ancestry? number node with
    | some trail => some trail
    | none => ancestries? number rest

end

def parentIn? (root node : Node) : Option Node :=
  match ancestry? node.id root with
  | some (_ :: parent :: _) => some parent
  | _ => none

def slice (node : Node) (source : ByteArray) : ByteArray := source.extract node.startByte node.endByte

def text (node : Node) (source : ByteArray) : String :=
  String.ofList (Text.Utf8.decode (node.slice source).toList)

structure Row where
  label : NodeLabel
  parent : Option Nat
deriving DecidableEq, Repr, Inhabited

def takePending (parent : Nat) (pending : List (Option Nat × Node)) : List Node :=
  (pending.filter fun (owner, _) => owner == some parent).map Prod.snd

def ofRows? (rows : List Row) : Option Node :=
  let built := rows.foldr
    (fun row pending =>
      let node := Node.mk row.label (takePending row.label.id pending)
      (row.parent, node) :: pending.filter fun (owner, _) => owner != some row.label.id)
    []
  match built with
  | (_, root) :: _ => some root
  | [] => none

mutual

def rows (parent : Option Nat) : Node → List Row
  | .mk label children => ⟨label, parent⟩ :: rowsOf (some label.id) children

def rowsOf (parent : Option Nat) : List Node → List Row
  | [] => []
  | node :: rest => rows parent node ++ rowsOf parent rest

end

def plain (source : ByteArray) : Node :=
  let feeds := source.toList.count 10
  let last := (source.toList.reverse.takeWhile (· != 10)).length
  .mk ⟨0, "source", 0, source.size, ⟨0, 0⟩, ⟨feeds, last⟩, true, none⟩ []

end Node

end Arborist
