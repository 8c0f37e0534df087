import Arborist.Text.Blank
import Arborist.Text.Letter
import Arborist.Tree.Node

/-!
One line of a sketch of a program: what kind of statement it is, told by its first words, and where
its parts stand.  Columns count characters from the start of the body of the line.
-/

namespace Arborist.Sketch

structure Span where
  start : Nat
  stop : Nat
deriving DecidableEq, Repr, Inhabited

inductive Shape where
  | function (name parameters : Span)
  | classDefinition (name : Span)
  | importFrom (origin name : Span) (newName : Option Span)
  | importPlain (name : Span)
  | compound (keyword : String) (identifiers : List Span)
  | assignment (left right : Span)
  | call (function arguments : Span)
  | expression (identifiers : List Span)
deriving DecidableEq, Repr

def Shape.opensBlock : Shape → Bool
  | .function _ _ | .classDefinition _ | .compound _ _ => true
  | _ => false

def isNameStart (c : Char) : Bool := c.isAlpha || c == '_'

structure Piece where
  column : Nat
  text : List Char

namespace Piece

def drop (piece : Piece) (count : Nat) : Piece := ⟨piece.column + count, piece.text.drop count⟩

def skipBlanks (piece : Piece) : Piece := piece.drop (piece.text.takeWhile Text.isBlank).length

def run? (piece : Piece) (test : Char → Bool) : Option (Span × Piece) :=
  let length := (piece.text.takeWhile test).length
  if length = 0 then none else some (⟨piece.column, piece.column + length⟩, piece.drop length)

def name? (piece : Piece) : Option (Span × Piece) :=
  match piece.text with
  | c :: _ => if isNameStart c then piece.run? Text.isWord else none
  | [] => none

def word? (piece : Piece) (word : String) : Option Piece :=
  if word.toList.isPrefixOf piece.text then some (piece.drop word.length) else none

def blanks? (piece : Piece) : Option Piece :=
  (piece.run? Text.isBlank).map Prod.snd

def parentheses? (piece : Piece) : Option (Span × Piece) :=
  match piece.text with
  | '(' :: rest =>
    let inside := (rest.takeWhile (· != ')')).length
    match rest.drop inside with
    | ')' :: _ => some (⟨piece.column, piece.column + inside + 2⟩, piece.drop (inside + 2))
    | _ => none
  | _ => none

end Piece

def identifiers (column : Nat) : Nat → List Char → List Span
  | 0, _ => []
  | _, [] => []
  | fuel + 1, c :: rest =>
    if isNameStart c then
      let length := 1 + (rest.takeWhile Text.isWord).length
      ⟨column, column + length⟩ :: identifiers (column + length) fuel ((c :: rest).drop length)
    else identifiers (column + 1) fuel rest

def identifiersOf (piece : Piece) : List Span := identifiers piece.column piece.text.length piece.text

def function? (body : Piece) : Option Shape := do
  let (name, rest) ← (← (← body.word? "def").blanks?).name?
  let (parameters, rest) ← rest.skipBlanks.parentheses?
  let _ ← rest.skipBlanks.word? ":"
  return .function name parameters

def class? (body : Piece) : Option Shape := do
  let (name, rest) ← (← (← body.word? "class").blanks?).name?
  if rest.text.contains ':' then return .classDefinition name else none

def newName? (piece : Piece) : Option Span := do
  let (name, _) ← (← (← (← piece.blanks?).word? "as").blanks?).run? Text.isWord
  return name

def isDottedChar (c : Char) : Bool := Text.isWord c || c == '.'

def importFrom? (body : Piece) : Option Shape := do
  let (origin, rest) ← (← (← body.word? "from").blanks?).run? fun c => !Text.isBlank c
  let (name, rest) ← (← (← (← rest.blanks?).word? "import").blanks?).run? isDottedChar
  return .importFrom origin name (newName? rest)

def importPlain? (body : Piece) : Option Shape := do
  let (name, _) ← (← (← body.word? "import").blanks?).run? isDottedChar
  return .importPlain name

def compoundWords : List String := ["if", "for", "while", "try"]

def compound? (body : Piece) : Option Shape := do
  let keyword ← compoundWords.find? fun word =>
    word.toList.isPrefixOf body.text && !((body.text.drop word.length).head?.any Text.isWord)
  return .compound keyword (identifiersOf (body.drop 2))

def assignment? (body : Piece) : Option Shape := do
  let (left, rest) ← body.name?
  let value := (← rest.skipBlanks.word? "=").skipBlanks
  let length := (Text.stripRight value.text).length
  if length = 0 then none
  return .assignment left ⟨value.column, value.column + length⟩

def call? (body : Piece) : Option Shape := do
  let (function, rest) ← body.name?
  let (arguments, rest) ← rest.skipBlanks.parentheses?
  if rest.text.all Text.isBlank then return .call function arguments else none

def shapeOf (body : Piece) : Shape :=
  (((((((function? body).or (class? body)).or (importFrom? body)).or (importPlain? body)).or
    (compound? body)).or (assignment? body)).or (call? body)).getD (.expression (identifiersOf body))

structure Statement where
  row : Nat
  offset : Nat
  indent : Nat
  length : Nat
  shape : Shape
deriving Repr

namespace Statement

def part (statement : Statement) (kind : String) (field : Option String) (span : Span)
    (children : List Node) : Node :=
  .mk ⟨0, kind, statement.offset + span.start, statement.offset + span.stop,
    ⟨statement.row, span.start⟩, ⟨statement.row, span.stop⟩, true, field⟩ children

def leaf (statement : Statement) (kind field : String) (span : Span) : Node :=
  statement.part kind (some field) span []

/-- The block that a statement opens, at the last character of its line. -/
def block (statement : Statement) (field : Option String) (nested : List Node) : Node :=
  statement.part "block" field ⟨statement.length - 1, statement.length⟩ nested

def node (statement : Statement) (nested : List Node) : Node :=
  let whole (kind : String) (children : List Node) : Node :=
    statement.part kind none ⟨statement.indent, statement.length⟩ children
  let plain (span : Span) : Node := statement.part "identifier" none span []
  match statement.shape with
  | .function name parameters =>
    whole "function_definition" [statement.leaf "identifier" "name" name,
      statement.leaf "parameters" "parameters" parameters, statement.block (some "body") nested]
  | .classDefinition name =>
    whole "class_definition" [statement.leaf "identifier" "name" name,
      statement.block (some "body") nested]
  | .importFrom origin name none =>
    whole "import_from_statement" [statement.leaf "dotted_name" "module_name" origin,
      statement.leaf "dotted_name" "name" name]
  | .importFrom origin name (some newName) =>
    whole "import_from_statement" [statement.leaf "dotted_name" "module_name" origin,
      statement.part "aliased_import" (some "name") ⟨name.start, newName.stop⟩
        [statement.leaf "dotted_name" "name" name, statement.leaf "identifier" "alias" newName]]
  | .importPlain name => whole "import_statement" [statement.leaf "dotted_name" "name" name]
  | .compound keyword identifiers =>
    whole (keyword ++ "_statement") (statement.block none nested :: identifiers.map plain)
  | .assignment left right =>
    whole "assignment" [statement.leaf "identifier" "left" left,
      statement.leaf "identifier" "right" right]
  | .call function arguments =>
    whole "call" [statement.leaf "identifier" "function" function,
      statement.leaf "argument_list" "arguments" arguments]
  | .expression identifiers => whole "expression_statement" (identifiers.map plain)

end Statement

end Arborist.Sketch
