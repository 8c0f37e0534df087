import Arborist.Sketch.Statement
import Arborist.Text.Lines

/-!
The tree of a sketch.  Lines nest by indentation: a line belongs to the block of the nearest line
above it that opens one and stands further left, unless a line in between stands as far left as that
one.  Blank lines and comments do not count.
-/

namespace Arborist.Sketch

structure SourceLine where
  row : Nat
  offset : Nat
  text : List Char

def sourceLines (row offset : Nat) : List (List Char) → List SourceLine
  | [] => []
  | line :: rest =>
    ⟨row, offset, Text.dropFeeds line⟩ :: sourceLines (row + 1) (offset + Text.Utf8.byteLength line) rest

namespace SourceLine

def counts (line : SourceLine) : Bool :=
  match Text.strip line.text with
  | [] => false
  | c :: _ => c != '#'

def indent (line : SourceLine) : Nat := (line.text.takeWhile Text.isBlank).length

def body (line : SourceLine) : Piece := ⟨line.indent, line.text.drop line.indent⟩

def statement (line : SourceLine) : Statement where
  row := line.row
  offset := line.offset
  indent := line.indent
  length := line.text.length
  shape := shapeOf line.body

end SourceLine

def linesOf (source : ByteArray) : List SourceLine :=
  sourceLines 0 0 (Text.boundaryLines (Text.Utf8.decode source.toList))

def statementsOf (source : ByteArray) : List Statement :=
  ((linesOf source).filter SourceLine.counts).map SourceLine.statement

structure OpenBlock where
  indent : Int
  owner : Option Nat
deriving DecidableEq, Repr

def closeTo (indent : Nat) (blocks : List OpenBlock) : List OpenBlock :=
  blocks.dropWhile fun block => (indent : Int) ≤ block.indent

def openAfter (number : Nat) (statement : Statement) (blocks : List OpenBlock) : List OpenBlock :=
  let blocks := closeTo statement.indent blocks
  if statement.shape.opensBlock then ⟨statement.indent, some number⟩ :: blocks else blocks

def rootBlock : OpenBlock := ⟨-1, none⟩

structure Placement where
  number : Nat
  owner : Option Nat
  statement : Statement

def placements : Nat → List OpenBlock → List Statement → List Placement
  | _, _, [] => []
  | number, blocks, statement :: rest =>
    ⟨number, (closeTo statement.indent blocks).head?.bind OpenBlock.owner, statement⟩ ::
      placements (number + 1) (openAfter number statement blocks) rest

def nest : List Placement → List (Option Nat × Node)
  | [] => []
  | placement :: rest =>
    let later := nest rest
    let nested := (later.filter fun (owner, _) => owner == some placement.number).map Prod.snd
    (placement.owner, placement.statement.node nested) ::
      later.filter fun (owner, _) => owner != some placement.number

mutual

def renumber (next : Nat) : Node → Node × Nat
  | .mk label children =>
    let (children, after) := renumberAll (next + 1) children
    (.mk { label with id := next } children, after)

def renumberAll (next : Nat) : List Node → List Node × Nat
  | [] => ([], next)
  | node :: rest =>
    let (node, next) := renumber next node
    let (rest, next) := renumberAll next rest
    (node :: rest, next)

end

def endOf (lines : List SourceLine) : Point :=
  match lines.getLast? with
  | some last => ⟨last.row, last.text.length⟩
  | none => ⟨0, 0⟩

def build (source : ByteArray) : Node :=
  let statements := (nest (placements 0 [rootBlock] (statementsOf source))).map Prod.snd
  let label : NodeLabel := ⟨0, "module", 0, source.size, ⟨0, 0⟩, endOf (linesOf source), true, none⟩
  (renumber 0 (.mk label statements)).1

end Arborist.Sketch
