import Arborist.Text.Case
import Arborist.Text.Letter
import Arborist.Text.Blank

/-!
Regular expressions with groups, back references, assertions, and greedy, lazy and possessive
repetition.  Flags are resolved when an expression is read, so every part says by itself how it
matches.
-/

namespace Arborist

namespace Regex

structure Flags where
  ignoreCase : Bool := false
  multiline : Bool := false
  dotAll : Bool := false
  ascii : Bool := false
  verbose : Bool := false
deriving DecidableEq, Repr, Inhabited

inductive CaseMode where
  | exact
  | anyCase
  | asciiCase
deriving DecidableEq, Repr

def Flags.caseMode (flags : Flags) : CaseMode :=
  if !flags.ignoreCase then .exact else if flags.ascii then .asciiCase else .anyCase

def lowerAscii (c : Char) : Char := if 'A' ≤ c && c ≤ 'Z' then Char.ofNat (c.toNat + 32) else c

def CaseMode.same (mode : CaseMode) (pattern subject : Char) : Bool :=
  match mode with
  | .exact => pattern == subject
  | .anyCase => Text.sameLetter pattern subject
  | .asciiCase => lowerAscii pattern == lowerAscii subject

inductive CharClass where
  | digit
  | space
  | word
deriving DecidableEq, Repr

def CharClass.holds (kind : CharClass) (ascii : Bool) (c : Char) : Bool :=
  (!ascii || c.toNat < 128) &&
    match kind with
    | .digit => Text.isDecimal c
    | .space => if ascii then " \t\n\r\x0b\x0c".toList.contains c else Text.isBlank c
    | .word => Text.isWord c

inductive SetItem where
  | char (c : Char)
  | range (low high : Char)
  | named (kind : CharClass) (negated : Bool)
deriving DecidableEq, Repr

def CaseMode.inRange (mode : CaseMode) (low high subject : Char) : Bool :=
  (low ≤ subject && subject ≤ high) ||
    (mode != .exact &&
      (List.range (high.toNat + 1 - low.toNat)).any fun step =>
        mode.same (Char.ofNat (low.toNat + step)) subject)

def SetItem.holds (mode : CaseMode) (ascii : Bool) (subject : Char) : SetItem → Bool
  | .char c => mode.same c subject
  | .range low high => mode.inRange low high subject
  | .named kind negated => kind.holds ascii subject != negated

inductive Anchor where
  | lineStart (multiline : Bool)
  | lineEnd (multiline : Bool)
  | textStart
  | textEnd
  | boundary (ascii negated : Bool)
deriving DecidableEq, Repr

inductive Eagerness where
  | greedy
  | lazy
  | possessive
deriving DecidableEq, Repr

structure Width where
  least : Nat
  greatest : Option Nat
deriving DecidableEq, Repr, Inhabited

end Regex

inductive Regex where
  | empty
  | never
  | char (c : Char) (mode : Regex.CaseMode)
  | any (feeds : Bool)
  | oneOf (negated : Bool) (items : List Regex.SetItem) (mode : Regex.CaseMode) (ascii : Bool)
  | place (anchor : Regex.Anchor)
  | seq (first second : Regex)
  | alt (left right : Regex)
  | group (number : Nat) (body : Regex)
  | reference (number : Nat) (mode : Regex.CaseMode) (width : Regex.Width)
  | atomic (body : Regex)
  | repetition (least : Nat) (greatest : Option Nat) (eagerness : Regex.Eagerness) (body : Regex)
  | ahead (negated : Bool) (body : Regex)
  | behind (negated : Bool) (distance : Nat) (body : Regex)
  | ifGroup (number : Nat) (yes no : Regex)
deriving Inhabited

namespace Regex

namespace Width

def point : Width := ⟨0, some 0⟩

def letter : Width := ⟨1, some 1⟩

def add (left right : Width) : Width :=
  ⟨left.least + right.least, do return (← left.greatest) + (← right.greatest)⟩

def join (left right : Width) : Width :=
  ⟨min left.least right.least, do return max (← left.greatest) (← right.greatest)⟩

def times (width : Width) (least : Nat) (greatest : Option Nat) : Width :=
  ⟨width.least * least,
    if width.greatest = some 0 then some 0 else do return (← width.greatest) * (← greatest)⟩

def fixed? (width : Width) : Option Nat := if width.greatest = some width.least then some width.least else none

end Width

def width : Regex → Width
  | .empty | .never | .place _ | .ahead _ _ | .behind _ _ _ => .point
  | .char _ _ | .any _ | .oneOf _ _ _ _ => .letter
  | .seq first second => first.width.add second.width
  | .alt left right => left.width.join right.width
  | .group _ body | .atomic body => body.width
  | .reference _ _ width => width
  | .repetition least greatest _ body => body.width.times least greatest
  | .ifGroup _ yes no => yes.width.join no.width

def sequence : List Regex → Regex
  | [] => .empty
  | [single] => single
  | first :: rest => .seq first (sequence rest)

def choice : List Regex → Regex
  | [] => .empty
  | [single] => single
  | first :: rest => .alt first (choice rest)

def literal (text : List Char) (mode : CaseMode) : Regex := sequence (text.map fun c => .char c mode)

end Regex

end Arborist
