import Arborist.Text.Blank

/-!
Lines.  A text read from a file has one line end, the line feed; a text split at every line boundary
also knows the other line, page and paragraph ends.  In both a line keeps its end.
-/

namespace Arborist.Text

/-- Carriage returns become line feeds, alone or together with the line feed after them. -/
def unifyNewlines (text : List Char) : List Char :=
  (text.foldr
    (fun c (state : Option Char × List Char) =>
      if c = '\r' then
        (some c, if state.1 = some '\n' then state.2 else '\n' :: state.2)
      else (some c, c :: state.2))
    (none, [])).2

def extendFirst (item : α) : List (List α) → List (List α)
  | [] => [[item]]
  | line :: others => (item :: line) :: others

/-- The lines of a sequence, each with the end that satisfies the test; the last one may lack it. -/
def linesWhere (isEnd : α → Bool) (items : List α) : List (List α) :=
  items.foldr (fun item lines => if isEnd item then [item] :: lines else extendFirst item lines) []

def feedLines (text : List Char) : List (List Char) := linesWhere (· == '\n') text

def byteLines (bytes : List UInt8) : List (List UInt8) := linesWhere (· == 10) bytes

/-- A character that ends a line: feeds, returns, information separators and the two separators of
lines and paragraphs. -/
def isLineEnd (c : Char) : Bool :=
  let code := c.toNat
  (10 ≤ code && code ≤ 13) || (28 ≤ code && code ≤ 30) || code == 133 || code == 8232 || code == 8233

/-- Lines parted at every line boundary, a return and the feed after it being one boundary. -/
def boundaryLines (text : List Char) : List (List Char) :=
  (text.foldr
    (fun c (state : Option Char × List (List Char)) =>
      if isLineEnd c && !(c = '\r' && state.1 = some '\n') then (some c, [c] :: state.2)
      else (some c, extendFirst c state.2))
    (none, [])).2

def dropFeeds (text : List Char) : List Char := (text.reverse.dropWhile (· == '\n')).reverse

end Arborist.Text
