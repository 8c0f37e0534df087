import Arborist.Text.Blank
import Arborist.Text.Letter

/-!
Integers written in decimal digits of any script, with a sign, blanks around them, and single
underscores between digits.
-/

namespace Arborist.Text

def digitRun? : List Char → Nat → Option Nat
  | [], _ => none
  | [c], total => (decimalValue? c).map fun digit => total * 10 + digit
  | c :: '_' :: rest, total => (decimalValue? c).bind fun digit => digitRun? rest (total * 10 + digit)
  | c :: rest, total => (decimalValue? c).bind fun digit => digitRun? rest (total * 10 + digit)

def integer? (text : String) : Option Int :=
  match strip text.toList with
  | '-' :: rest => (digitRun? rest 0).map fun magnitude => -(magnitude : Int)
  | '+' :: rest => (digitRun? rest 0).map fun magnitude => (magnitude : Int)
  | rest => (digitRun? rest 0).map fun magnitude => (magnitude : Int)

end Arborist.Text
