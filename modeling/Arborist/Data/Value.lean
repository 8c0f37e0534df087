import Arborist.Number.Decimal
import Arborist.Text.Quoted

/-!
Plain data, as read from a settings document or written as an answer.  A map keeps its entries in
the order in which their keys first came.
-/

namespace Arborist

inductive Value where
  | null
  | bool (value : Bool)
  | int (value : Int)
  | float (value : Binary64)
  | string (text : String)
  | bytes (content : ByteArray)
  | list (items : List Value)
  | map (entries : List (Value × Value))
  /-- A calendar date or a point in time: how it is shown alone and inside other data. -/
  | date (shown inner : String)
deriving Inhabited

namespace Value

mutual

def beq : Value → Value → Bool
  | .null, .null => true
  | .bool a, .bool b => a == b
  | .int a, .int b => a == b
  | .float a, .float b => a == b
  | .string a, .string b => a == b
  | .bytes a, .bytes b => a == b
  | .list a, .list b => beqItems a b
  | .map a, .map b => beqEntries a b
  | .date a _, .date b _ => a == b
  | _, _ => false

def beqItems : List Value → List Value → Bool
  | [], [] => true
  | a :: rest, b :: others => beq a b && beqItems rest others
  | _, _ => false

def beqEntries : List (Value × Value) → List (Value × Value) → Bool
  | [], [] => true
  | (key, value) :: rest, (other, meaning) :: others =>
    beq key other && beq value meaning && beqEntries rest others
  | _, _ => false

end

instance : BEq Value := ⟨beq⟩

def toRat? : Value → Option Rat
  | .bool value => some (if value then 1 else 0)
  | .int value => some value
  | .float value => value.toRat?
  | _ => none

/-- Equality of keys and members: numbers of every kind are compared by what they denote. -/
def sameAs (left right : Value) : Bool :=
  match left.toRat?, right.toRat? with
  | some a, some b => a == b
  | _, _ => left == right

/-- Data that counts as nothing: null, false, zero and what is empty. -/
def isVoid : Value → Bool
  | .null => true
  | .bool value => !value
  | .int value => value == 0
  | .float value => value.toRat? == some 0
  | .string text => text.isEmpty
  | .bytes content => content.isEmpty
  | .list items => items.isEmpty
  | .map entries => entries.isEmpty
  | .date _ _ => false

def isHashable : Value → Bool
  | .list _ | .map _ => false
  | _ => true

def putEntry (key value : Value) : List (Value × Value) → List (Value × Value)
  | [] => [(key, value)]
  | (other, old) :: rest =>
    if other.sameAs key then (other, value) :: rest else (other, old) :: putEntry key value rest

def getEntry? (key : String) : List (Value × Value) → Option Value
  | [] => none
  | (.string name, value) :: rest => if name == key then some value else getEntry? key rest
  | _ :: rest => getEntry? key rest

def get? (value : Value) (key : String) : Option Value :=
  match value with
  | .map entries => getEntry? key entries
  | _ => none

def object (entries : List (String × Value)) : Value :=
  .map (entries.map fun (key, value) => (.string key, value))

def strings (texts : List String) : Value := .list (texts.map .string)

def nat (value : Nat) : Value := .int value

def ofOption (encode : α → Value) : Option α → Value
  | none => .null
  | some value => encode value

def escapedByte (byte : UInt8) : String :=
  if byte == 92 then "\\\\"
  else if byte == 39 then "\\'"
  else if byte == 9 then "\\t"
  else if byte == 10 then "\\n"
  else if byte == 13 then "\\r"
  else if 32 ≤ byte && byte < 127 then String.ofList [Char.ofNat byte.toNat]
  else "\\x" ++ String.ofList (Text.hexDigits 2 byte.toNat)

def boolText (value : Bool) : String := if value then "True" else "False"

mutual

/-- The text of data inside other data, where texts stand in quotes. -/
def innerText : Value → String
  | .null => "None"
  | .bool value => boolText value
  | .int value => toString value
  | .float value => value.shortestText
  | .string text => Text.quoted text
  | .bytes content => "b'" ++ String.join (content.toList.map escapedByte) ++ "'"
  | .list items => "[" ++ ", ".intercalate (innerTexts items) ++ "]"
  | .map entries => "\x7b" ++ ", ".intercalate (entryTexts entries) ++ "\x7d"
  | .date _ inner => inner

def innerTexts : List Value → List String
  | [] => []
  | item :: rest => innerText item :: innerTexts rest

def entryTexts : List (Value × Value) → List String
  | [] => []
  | (key, value) :: rest => (innerText key ++ ": " ++ innerText value) :: entryTexts rest

end

def text : Value → String
  | .string text => text
  | .date shown _ => shown
  | other => other.innerText

end Value

end Arborist
