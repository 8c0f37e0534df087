import Arborist.Data.Yaml.Scalar
import Arborist.Data.Yaml.Tree

/-!
The data that a document denotes.  Mappings may take entries over from others by the merge key;
their own entries come after those and prevail.
-/

namespace Arborist.Yaml

def sequenceTag : String := "tag:yaml.org,2002:seq"

def mappingTag : String := "tag:yaml.org,2002:map"

def scalarKind? (tag : Option String) (plain : Bool) (text : String) : Option Kind :=
  match tag with
  | some tag => Kind.all.find? fun kind => kind.tag == tag
  | none => some (if plain then kindOf text else .text)

def isMergeKey : Tree → Bool
  | .scalar tag plain text => scalarKind? tag plain text == some .merge
  | _ => false

/-- A key written as the value sign is a text. -/
def plainKey : Tree → Tree
  | .scalar none true "=" => .scalar none false "="
  | tree => tree

def mergedEntries (fuel : Nat) (entries : List (Tree × Tree)) : Option (List (Tree × Tree)) :=
  match fuel with
  | 0 => none
  | fuel + 1 => do
    let own := (entries.filter fun (key, _) => !isMergeKey key).map fun (key, value) => (plainKey key, value)
    let taken ← (entries.filter fun (key, _) => isMergeKey key).mapM fun (_, value) =>
      match value with
      | .mapping _ others => mergedEntries fuel others
      | .sequence _ items => do
        let parts ← items.mapM fun item =>
          match item with
          | .mapping _ others => mergedEntries fuel others
          | _ => none
        return parts.reverse.flatten
      | _ => none
    return taken.flatten ++ own

mutual

def construct (fuel : Nat) (tree : Tree) : Option Value :=
  match fuel with
  | 0 => none
  | fuel + 1 =>
    match tree with
    | .scalar tag plain text => do (← scalarKind? tag plain text).read? text
    | .sequence tag items => do
      if tag.any (· != sequenceTag) then none
      return .list (← constructItems fuel items)
    | .mapping tag entries => do
      if tag.any (· != mappingTag) then none
      return .map (← constructEntries fuel [] (← mergedEntries fuel entries))

def constructItems (fuel : Nat) (items : List Tree) : Option (List Value) :=
  match fuel, items with
  | 0, _ => none
  | _, [] => some []
  | fuel + 1, item :: rest => do return (← construct fuel item) :: (← constructItems fuel rest)

def constructEntries (fuel : Nat) (built : List (Value × Value)) (entries : List (Tree × Tree)) :
    Option (List (Value × Value)) :=
  match fuel, entries with
  | 0, _ => none
  | _, [] => some built
  | fuel + 1, (key, value) :: rest => do
    let key ← construct fuel key
    if !key.isHashable then none
    let value ← construct fuel value
    constructEntries fuel (Value.putEntry key value built) rest

end

/-- The data of a text in the YAML notation, null if it holds no document; none if it is not in the
notation. -/
def load? (text : String) : Option Value := do
  match ← tree? text with
  | none => return .null
  | some tree => construct (8 * text.length + 64) tree

end Arborist.Yaml
