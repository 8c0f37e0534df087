import Arborist.Text.Find

/-!
Patterns for names: a star stands for any characters, a question mark for one, and brackets for one
out of a set.
-/

namespace Arborist.File

structure CharSet where
  negated : Bool
  ranges : List (Char × Char)
deriving Repr

def CharSet.contains (set : CharSet) (c : Char) : Bool :=
  set.negated != set.ranges.any fun (low, high) => low ≤ c && c ≤ high

inductive Piece where
  | any
  | one
  | exact (c : Char)
  | among (set : CharSet)
deriving Repr

/-- The ranges of the text between brackets.  A hyphen between two characters makes a range, which
may be empty. -/
def rangesOf : List Char → List (Char × Char)
  | low :: '-' :: high :: rest => (low, high) :: rangesOf rest
  | c :: rest => (c, c) :: rangesOf rest
  | [] => []

/-- The inside of brackets and what follows them, if they are closed.  A closing bracket at the
start of the inside belongs to it. -/
def bracketed? (text : List Char) : Option (CharSet × List Char) :=
  let (negated, body) := match text with
    | '!' :: rest => (true, rest)
    | _ => (false, text)
  let (first, later) := match body with
    | ']' :: rest => ([']'], rest)
    | _ => ([], body)
  let inside := later.takeWhile (· != ']')
  match later.drop inside.length with
  | ']' :: rest => some (⟨negated, rangesOf (first ++ inside)⟩, rest)
  | _ => none

def piecesWith : Nat → List Char → List Piece
  | 0, _ => []
  | _, [] => []
  | fuel + 1, '*' :: rest => .any :: piecesWith fuel rest
  | fuel + 1, '?' :: rest => .one :: piecesWith fuel rest
  | fuel + 1, '[' :: rest =>
    match bracketed? rest with
    | some (set, after) => .among set :: piecesWith fuel after
    | none => .exact '[' :: piecesWith fuel rest
  | fuel + 1, c :: rest => .exact c :: piecesWith fuel rest

def pieces (pattern : List Char) : List Piece := piecesWith (pattern.length + 1) pattern

def fits : List Piece → List Char → Bool
  | [], name => name.isEmpty
  | .any :: rest, [] => fits rest []
  | .any :: rest, c :: others => fits rest (c :: others) || fits (.any :: rest) others
  | .one :: rest, _ :: others => fits rest others
  | .exact c :: rest, d :: others => c == d && fits rest others
  | .among set :: rest, c :: others => set.contains c && fits rest others
  | _, [] => false
termination_by pieces name => pieces.length + name.length

def nameFits (pattern name : String) : Bool := fits (pieces pattern.toList) name.toList

def isPattern (component : String) : Bool :=
  component.toList.any fun c => c == '*' || c == '?' || c == '['

end Arborist.File
