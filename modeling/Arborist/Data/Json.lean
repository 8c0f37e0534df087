import Arborist.Data.Value

/-!
The JSON notation.  Reading stops at the first fault and tells its cause and its place; of two
members with one name the later value stands at the earlier place.
-/

namespace Arborist.Json

inductive Cause where
  | byteOrderMark
  | value
  | extra
  | memberName
  | colon
  | comma
  | control
  | escape
  | codeEscape
  | unterminated
deriving DecidableEq, Repr

def Cause.message : Cause → String
  | .byteOrderMark => "Unexpected UTF-8 BOM (decode using utf-8-sig)"
  | .value => "Expecting value"
  | .extra => "Extra data"
  | .memberName => "Expecting property name enclosed in double quotes"
  | .colon => "Expecting ':' delimiter"
  | .comma => "Expecting ',' delimiter"
  | .control => "Invalid control character at"
  | .escape => "Invalid \\escape"
  | .codeEscape => "Invalid \\uXXXX escape"
  | .unterminated => "Unterminated string starting at"

structure Fault where
  cause : Cause
  offset : Nat
deriving Repr

def Fault.message (fault : Fault) (text : String) : String :=
  let before := text.toList.take fault.offset
  let line := before.count '\n' + 1
  let column := (before.reverse.takeWhile (· != '\n')).length + 1
  s!"{fault.cause.message}: line {line} column {column} (char {fault.offset})"

structure Cursor where
  rest : List Char
  offset : Nat

def fail (cause : Cause) (cursor : Cursor) : Except Fault α := .error ⟨cause, cursor.offset⟩

def isSpace (c : Char) : Bool := c == ' ' || c == '\t' || c == '\n' || c == '\r'

def Cursor.skip (cursor : Cursor) (count : Nat) : Cursor :=
  ⟨cursor.rest.drop count, cursor.offset + count⟩

def Cursor.skipSpace (cursor : Cursor) : Cursor :=
  cursor.skip (cursor.rest.takeWhile isSpace).length

def hexValue? (c : Char) : Option Nat :=
  if '0' ≤ c && c ≤ '9' then some (c.toNat - 48)
  else if 'a' ≤ c && c ≤ 'f' then some (c.toNat - 87)
  else if 'A' ≤ c && c ≤ 'F' then some (c.toNat - 55)
  else none

def hexCode? (digits : List Char) : Option Nat :=
  digits.foldl (fun total digit => do return (← total) * 16 + (← hexValue? digit)) (some 0)

def code? : List Char → Option (Nat × List Char)
  | a :: b :: c :: d :: next :: rest => (hexCode? [a, b, c, d]).map fun code => (code, next :: rest)
  | _ => none

def simpleEscape? (c : Char) : Option Char :=
  match c with
  | '"' => some '"'
  | '\\' => some '\\'
  | '/' => some '/'
  | 'b' => some (Char.ofNat 8)
  | 'f' => some (Char.ofNat 12)
  | 'n' => some '\n'
  | 'r' => some '\r'
  | 't' => some '\t'
  | _ => none

def readText (start : Nat) (fuel : Nat) (output : List Char) (cursor : Cursor) : Except Fault (String × Cursor) :=
  match fuel with
  | 0 => .error ⟨.unterminated, start⟩
  | fuel + 1 =>
    match cursor.rest with
    | [] => .error ⟨.unterminated, start⟩
    | '"' :: rest => .ok (String.ofList output.reverse, ⟨rest, cursor.offset + 1⟩)
    | '\\' :: [] => .error ⟨.unterminated, start⟩
    | '\\' :: 'u' :: rest =>
      match code? rest with
      | none => .error ⟨.codeEscape, cursor.offset + 1⟩
      | some (high, after) =>
        let single := readText start fuel
          ((if 0xD800 ≤ high && high < 0xE000 then Char.ofNat 0xFFFD else Char.ofNat high) :: output)
        if 0xD800 ≤ high && high < 0xDC00 then
          match after with
          | '\\' :: 'u' :: following =>
            match code? following with
            | some (low, later) =>
              if 0xDC00 ≤ low && low < 0xE000 then
                readText start fuel
                  (Char.ofNat (0x10000 + (high - 0xD800) * 0x400 + (low - 0xDC00)) :: output)
                  ⟨later, cursor.offset + 12⟩
              else single ⟨after, cursor.offset + 6⟩
            | none => single ⟨after, cursor.offset + 6⟩
          | _ => single ⟨after, cursor.offset + 6⟩
        else single ⟨after, cursor.offset + 6⟩
    | '\\' :: c :: rest =>
      match simpleEscape? c with
      | some plain => readText start fuel (plain :: output) ⟨rest, cursor.offset + 2⟩
      | none => .error ⟨.escape, cursor.offset⟩
    | c :: rest =>
      if c.toNat < 32 then .error ⟨.control, cursor.offset⟩
      else readText start fuel (c :: output) ⟨rest, cursor.offset + 1⟩

def isDigit (c : Char) : Bool := '0' ≤ c && c ≤ '9'

def digitsValue (digits : List Char) : Nat :=
  digits.foldl (fun total digit => total * 10 + (digit.toNat - 48)) 0

def fractionDigits : List Char → List Char
  | '.' :: rest => rest.takeWhile isDigit
  | _ => []

def exponentPart : List Char → Nat × Int
  | mark :: rest =>
    if mark == 'e' || mark == 'E' then
      let (signLength, negative, digits) := match rest with
        | '-' :: more => (1, true, more.takeWhile isDigit)
        | '+' :: more => (1, false, more.takeWhile isDigit)
        | more => (0, false, more.takeWhile isDigit)
      if digits.isEmpty then (0, 0)
      else
        let magnitude : Int := digitsValue digits
        (1 + signLength + digits.length, if negative then -magnitude else magnitude)
    else (0, 0)
  | [] => (0, 0)

def readNumber (cursor : Cursor) : Except Fault (Value × Cursor) :=
  let (negative, body) := match cursor.rest with
    | '-' :: rest => (true, rest)
    | rest => (false, rest)
  let whole := match body with
    | '0' :: _ => ['0']
    | _ => body.takeWhile isDigit
  if whole.isEmpty then fail .value cursor
  else
    let afterWhole := body.drop whole.length
    let fraction := fractionDigits afterWhole
    let fractionLength := if fraction.isEmpty then 0 else fraction.length + 1
    let (exponentLength, exponent) := exponentPart (afterWhole.drop fractionLength)
    let length := (if negative then 1 else 0) + whole.length + fractionLength + exponentLength
    let value : Value :=
      if fractionLength = 0 && exponentLength = 0 then
        let magnitude : Int := digitsValue whole
        .int (if negative then -magnitude else magnitude)
      else .float (Binary64.ofDecimal negative (digitsValue (whole ++ fraction))
        (exponent - fraction.length))
    .ok (value, cursor.skip length)

def literals : List (List Char × Value) :=
  [("null".toList, .null), ("true".toList, .bool true), ("false".toList, .bool false),
    ("NaN".toList, .float .undefined), ("Infinity".toList, .float (.infinite false)),
    ("-Infinity".toList, .float (.infinite true))]

mutual

def readValue (fuel : Nat) (cursor : Cursor) : Except Fault (Value × Cursor) :=
  match fuel with
  | 0 => fail .value cursor
  | fuel + 1 =>
    match cursor.rest with
    | '"' :: rest => do
      let (text, after) ← readText cursor.offset (rest.length + 1) [] ⟨rest, cursor.offset + 1⟩
      return (.string text, after)
    | '\x7b' :: _ =>
      let inside := (cursor.skip 1).skipSpace
      match inside.rest with
      | '\x7d' :: _ => .ok (.map [], inside.skip 1)
      | _ => readMembers fuel [] inside
    | '[' :: _ =>
      let inside := (cursor.skip 1).skipSpace
      match inside.rest with
      | ']' :: _ => .ok (.list [], inside.skip 1)
      | _ => readItems fuel [] inside
    | rest =>
      match literals.find? fun (word, _) => word.isPrefixOf rest with
      | some (word, value) => .ok (value, cursor.skip word.length)
      | none => readNumber cursor

def readItems (fuel : Nat) (items : List Value) (cursor : Cursor) : Except Fault (Value × Cursor) :=
  match fuel with
  | 0 => fail .value cursor
  | fuel + 1 => do
    let (item, after) ← readValue fuel cursor
    let next := after.skipSpace
    match next.rest with
    | ']' :: _ => return (.list (item :: items).reverse, next.skip 1)
    | ',' :: _ => readItems fuel (item :: items) (next.skip 1).skipSpace
    | _ => fail .comma next

def readMembers (fuel : Nat) (entries : List (Value × Value)) (cursor : Cursor) : Except Fault (Value × Cursor) :=
  match fuel with
  | 0 => fail .value cursor
  | fuel + 1 =>
    match cursor.rest with
    | '"' :: rest => do
      let (name, afterName) ← readText cursor.offset (rest.length + 1) [] ⟨rest, cursor.offset + 1⟩
      let colon := afterName.skipSpace
      match colon.rest with
      | ':' :: _ =>
        let (value, after) ← readValue fuel (colon.skip 1).skipSpace
        let entries := Value.putEntry (.string name) value entries
        let next := after.skipSpace
        match next.rest with
        | '\x7d' :: _ => return (.map entries, next.skip 1)
        | ',' :: _ => readMembers fuel entries (next.skip 1).skipSpace
        | _ => fail .comma next
      | _ => fail .colon colon
    | _ => fail .memberName cursor

end

def parse (text : String) : Except Fault Value := do
  let chars := text.toList
  if chars.head? = some (Char.ofNat 0xFEFF) then fail .byteOrderMark ⟨chars, 0⟩
  else
    let (value, after) ← readValue (2 * chars.length + 2) (Cursor.skipSpace ⟨chars, 0⟩)
    let last := after.skipSpace
    if last.rest.isEmpty then return value else fail .extra last

def escapedUnit (unit : Nat) : List Char := '\\' :: 'u' :: Text.hexDigits 4 unit

def escapedChar (c : Char) : List Char :=
  if c == '"' then ['\\', '"']
  else if c == '\\' then ['\\', '\\']
  else if c == '\n' then ['\\', 'n']
  else if c == '\r' then ['\\', 'r']
  else if c == '\t' then ['\\', 't']
  else if 32 ≤ c.toNat && c.toNat < 127 then [c]
  else if c.toNat < 0x10000 then escapedUnit c.toNat
  else
    let low := c.toNat - 0x10000
    escapedUnit (0xD800 + low / 0x400) ++ escapedUnit (0xDC00 + low % 0x400)

def textForm (text : String) : String :=
  String.ofList ('"' :: text.toList.flatMap escapedChar ++ ['"'])

mutual

/-- The text of a value, with a blank after each comma and colon.  Keys that are no texts are
written as the texts of their values. -/
def render : Value → String
  | .null => "null"
  | .bool value => if value then "true" else "false"
  | .int value => toString value
  | .float (.infinite negative) => if negative then "-Infinity" else "Infinity"
  | .float .undefined => "NaN"
  | .float value => value.shortestText
  | .string text => textForm text
  | .bytes content => textForm (Value.bytes content).innerText
  | .list items => "[" ++ ", ".intercalate (renderItems items) ++ "]"
  | .map entries => "\x7b" ++ ", ".intercalate (renderEntries entries) ++ "\x7d"
  | .date shown _ => textForm shown

def renderItems : List Value → List String
  | [] => []
  | item :: rest => render item :: renderItems rest

def renderEntries : List (Value × Value) → List String
  | [] => []
  | (.string key, value) :: rest => (textForm key ++ ": " ++ render value) :: renderEntries rest
  | (key, value) :: rest => (textForm (render key) ++ ": " ++ render value) :: renderEntries rest

end

end Arborist.Json
