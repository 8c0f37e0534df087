import Arborist.Data.Value

/-!
The fields of a request: what stands under a name, taken as what is expected there.
-/

namespace Arborist.Fields

def given? (fields : Value) (name : String) : Option Value :=
  match fields.get? name with
  | some .null | none => none
  | some value => some value

def raw (fields : Value) (name : String) (standard : Value) : Value := (fields.get? name).getD standard

def text (fields : Value) (name : String) : String := ((given? fields name).map Value.text).getD ""

def text? (fields : Value) (name : String) : Option String := (given? fields name).map Value.text

def intOf? : Value → Option Int
  | .int value => some value
  | .bool value => some (if value then 1 else 0)
  | .float value => some (towardZero (value.toRat?.getD 0))
  | _ => none

def int? (fields : Value) (name : String) : Option Int := (given? fields name).bind intOf?

def int (fields : Value) (name : String) (standard : Int) : Int := (int? fields name).getD standard

def flag (fields : Value) (name : String) (standard : Bool) : Bool :=
  match fields.get? name with
  | some value => !value.isVoid
  | none => standard

def itemsOf : Value → List Value
  | .list items => items
  | _ => []

def items (fields : Value) (name : String) : List Value := itemsOf (raw fields name .null)

def texts (fields : Value) (name : String) : List String := (items fields name).map Value.text

def texts? (fields : Value) (name : String) : Option (List String) :=
  (given? fields name).map fun value => (itemsOf value).map Value.text

def entriesOf : Value → List (String × Value)
  | .map entries => entries.map fun (key, value) => (key.text, value)
  | _ => []

def entries (fields : Value) (name : String) : List (String × Value) := entriesOf (raw fields name .null)

end Arborist.Fields
