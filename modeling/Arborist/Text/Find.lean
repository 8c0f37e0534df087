/-!
Occurrences of one text in another: whether there is one, what stands before and after the first,
and replacing all of them from left to right.
-/

namespace Arborist.Text

def occursIn [BEq α] (needle : List α) : List α → Bool
  | [] => needle.isEmpty
  | item :: rest => needle.isPrefixOf (item :: rest) || occursIn needle rest

def stringOccursIn (needle text : String) : Bool := occursIn needle.toList text.toList

def cutAt? (needle : List Char) : List Char → Option (List Char × List Char)
  | [] => if needle.isEmpty then some ([], []) else none
  | c :: rest =>
    if needle.isPrefixOf (c :: rest) then some ([], (c :: rest).drop needle.length)
    else (cutAt? needle rest).map fun (before, after) => (c :: before, after)

def beforeFirst (needle text : List Char) : List Char :=
  match cutAt? needle text with
  | some (before, _) => before
  | none => text

/-- Replaces occurrences from left to right, skipping the rest of one that was just replaced. -/
def replaceFrom (needle replacement : List Char) : Nat → List Char → List Char
  | _, [] => []
  | skip + 1, _ :: rest => replaceFrom needle replacement skip rest
  | 0, c :: rest =>
    if needle.isPrefixOf (c :: rest) then
      replacement ++ replaceFrom needle replacement (needle.length - 1) rest
    else c :: replaceFrom needle replacement 0 rest

def replaceAll (needle replacement text : List Char) : List Char :=
  replaceFrom needle replacement 0 text

def replaceString (needle replacement text : String) : String :=
  String.ofList (replaceAll needle.toList replacement.toList text.toList)

def piecesFrom (separator : List Char) : Nat → List Char → List (List Char)
  | _, [] => [[]]
  | skip + 1, _ :: rest => piecesFrom separator skip rest
  | 0, c :: rest =>
    if separator.isPrefixOf (c :: rest) then [] :: piecesFrom separator (separator.length - 1) rest
    else match piecesFrom separator 0 rest with
      | [] => [[c]]
      | piece :: others => (c :: piece) :: others

def pieces (separator text : String) : List String :=
  (piecesFrom separator.toList 0 text.toList).map String.ofList

def joinLines (lines : List String) : String := "\n".intercalate lines

end Arborist.Text
