import Arborist.Engine.Basic
import Arborist.Tree.Cursor
import Arborist.Tree.Outline

/-!
What stands in for an engine when there is none: nothing can be parsed or asked, and the only node
is empty.
-/

namespace Arborist.Absent

def isEngine : Bool := false

def parse (_source : ByteArray) : Option Tree := none

def compile (_query : String) : Option Query := none

def node : Node := .mk ⟨0, "", 0, 0, ⟨0, 0⟩, ⟨0, 0⟩, false, none⟩ []

def cursor : Cursor := .start node

def report : Value :=
  let named := node.children.filter Node.isNamed
  .object [("has_tree_sitter", .bool isEngine),
    ("query", .ofOption (fun _ => .bool true) (compile "")),
    ("parse", .ofOption (fun _ => .bool true) (parse ByteArray.empty)),
    ("set", .list [.null, .null]),
    ("node", .object [("type", .string node.kind), ("start_byte", .nat node.startByte),
      ("end_byte", .nat node.endByte), ("start_point", node.start.pair), ("end_point", node.stop.pair),
      ("is_named", .bool node.isNamed), ("parent", .null), ("children", .list []),
      ("child_count", .nat node.children.length), ("named_children", .list []),
      ("named_child_count", .nat named.length), ("children_by_field_name", .object [])]),
    ("cursor", .list [.bool cursor.firstChild?.isSome, .bool cursor.nextSibling?.isSome,
      .bool cursor.parent?.isSome, .string cursor.node.kind])]

end Arborist.Absent
