/-!
Blank characters, and the texts that are left when they are taken away at the ends or used to part
words.
-/

namespace Arborist.Text

/-- White space of any script, with the four information separators and the next-line control. -/
def isBlank (c : Char) : Bool :=
  let code := c.toNat
  (9 ≤ code && code ≤ 13) || (28 ≤ code && code ≤ 32) || code == 133 || code == 160 ||
    code == 5760 || (8192 ≤ code && code ≤ 8202) || code == 8232 || code == 8233 ||
    code == 8239 || code == 8287 || code == 12288

def stripLeft (text : List Char) : List Char := text.dropWhile isBlank

def stripRight (text : List Char) : List Char := (text.reverse.dropWhile isBlank).reverse

def strip (text : List Char) : List Char := stripRight (stripLeft text)

def stripString (text : String) : String := String.ofList (strip text.toList)

def splitWhere (test : α → Bool) (items : List α) : List (List α) :=
  items.foldr
    (fun item pieces =>
      if test item then [] :: pieces
      else match pieces with
        | [] => [[item]]
        | piece :: others => (item :: piece) :: others)
    [[]]

def words (text : List Char) : List (List Char) :=
  (splitWhere isBlank text).filter fun word => !word.isEmpty

def collapseBlanks (text : String) : String :=
  " ".intercalate ((words text.toList).map String.ofList)

end Arborist.Text
