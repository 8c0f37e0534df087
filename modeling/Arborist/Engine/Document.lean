import Arborist.Data.Fields
import Arborist.Engine.Basic

/-!
Recorded trees as data.  A tree is the list of its nodes in preorder; a node tells its kind, its
bytes, its points, whether it is named, its parent's place in the list and its field.
-/

namespace Arborist

open Fields

def natOf (value : Value) : Nat := ((intOf? value).getD 0).toNat

def Node.Row.ofValue (id : Nat) (row : Value) : Node.Row :=
  match itemsOf row with
  | kind :: startByte :: endByte :: startRow :: startColumn :: endRow :: endColumn :: named :: parent ::
      field :: _ =>
    { label :=
        { id, kind := kind.text, startByte := natOf startByte, endByte := natOf endByte
          start := ⟨natOf startRow, natOf startColumn⟩, stop := ⟨natOf endRow, natOf endColumn⟩
          named := !named.isVoid
          field := match field with
            | .string name => some name
            | _ => none }
      parent := (intOf? parent).bind fun number => if number < 0 then none else some number.toNat }
  | _ => default

def Node.Row.toValue (row : Node.Row) : Value :=
  let label := row.label
  .list [.string label.kind, .nat label.startByte, .nat label.endByte, .nat label.start.row,
    .nat label.start.column, .nat label.stop.row, .nat label.stop.column,
    .int (if label.named then 1 else 0), .int ((row.parent.map Int.ofNat).getD (-1)),
    .ofOption .string label.field]

/-- The tree of a list of nodes; without a list, all that the source alone tells. -/
def Node.ofDocument (source : ByteArray) (nodes : Option Value) : Node :=
  match nodes with
  | some nodes =>
    let rows := itemsOf nodes
    (Node.ofRows? (((List.range rows.length).zip rows).map fun (id, row) => Node.Row.ofValue id row)).getD
      (Node.plain source)
  | none => Node.plain source

def Node.numbered? (root : Node) (value : Value) : Option Node :=
  (intOf? value).bind fun id => root.find? id.toNat

def CaptureForm.ofName : String → CaptureForm
  | "object" => .object
  | "dict" => .mapping
  | "triple" => .triple
  | "junk" => .junk
  | _ => .pair

def Captures.ofDocument (root : Node) (value : Value) : Captures :=
  match value.get? "dict" with
  | some named =>
    .byName ((itemsOf named).map fun item =>
      match itemsOf item with
      | [name, nodes] => (name.text, (itemsOf nodes).map root.numbered?)
      | _ => ("", []))
  | none =>
    .list ((itemsOf value).map fun item =>
      match itemsOf item with
      | [node, name] => ⟨root.numbered? node, name.text, .pair⟩
      | node :: name :: form :: _ => ⟨root.numbered? node, name.text, .ofName form.text⟩
      | _ => ⟨none, "", .junk⟩)

def TreeRecord.ofDocument (source : ByteArray) (document : Value) : TreeRecord :=
  let root := Node.ofDocument source (document.get? "nodes")
  { source, root
    captures := (entries document "captures").map fun (key, value) => (key, .ofDocument root value)
    parseFault := text? document "parse_error"
    editFault := text? document "edit_error" }

end Arborist
