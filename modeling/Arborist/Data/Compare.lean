import Arborist.Fault

/-!
Comparing data whose kind is not known beforehand.  Numbers of every kind compare by what they
denote, texts by their characters; all else cannot be compared.
-/

namespace Arborist.Value

def kindName : Value → String
  | .null => "NoneType"
  | .bool _ => "bool"
  | .int _ => "int"
  | .float _ => "float"
  | .string _ => "str"
  | .bytes _ => "bytes"
  | .list _ => "list"
  | .map _ => "dict"
  | .date _ inner => if inner.startsWith "datetime.datetime" then "datetime.datetime" else "datetime.date"

def number? : Value → Option Binary64
  | .bool value => some (.finite (if value then 1 else 0))
  | .int value => some (.finite value)
  | .float value => some value
  | _ => none

/-- Whether one value exceeds another; the fault names the operator and the kinds in this order. -/
def exceeds (left right : Value) : Except Fault Bool :=
  match left.number?, right.number? with
  | some a, some b => .ok (b.lt a)
  | _, _ =>
    match left, right with
    | .string a, .string b => .ok (b < a)
    | _, _ => .error (.notComparable ">" left.kindName right.kindName)

/-- Whether a value is among the members of another: an item of a list, a key of a map, or a part of
a text. -/
def hasMember (collection member : Value) : Except Fault Bool :=
  match collection, member with
  | .list items, _ => .ok (items.any fun item => item.sameAs member)
  | .map entries, _ => .ok (entries.any fun (key, _) => key.sameAs member)
  | .string text, .string part => .ok (Text.stringOccursIn part text)
  | .string _, _ => .error (.notText member.kindName)
  | _, _ => .error (.notContainer collection.kindName)

def members : Value → Except Fault (List Value)
  | .list items => .ok items
  | .map entries => .ok (entries.map Prod.fst)
  | .string text => .ok (text.toList.map fun c => .string (String.ofList [c]))
  | other => .error (.notIterable other.kindName)

end Arborist.Value
