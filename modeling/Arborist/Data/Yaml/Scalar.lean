import Arborist.Data.Value

/-!
What a scalar denotes.  A plain one without a tag is read as the first of these that it spells: a
truth value, a float, an integer, the merge sign, null, a date, and else as text.  Integers may be
written in base two, eight, ten, sixteen and sixty.
-/

namespace Arborist.Yaml

inductive Kind where
  | bool
  | float
  | int
  | merge
  | null
  | timestamp
  | value
  | text
deriving DecidableEq, Repr

def Kind.tag : Kind → String
  | .bool => "tag:yaml.org,2002:bool"
  | .float => "tag:yaml.org,2002:float"
  | .int => "tag:yaml.org,2002:int"
  | .merge => "tag:yaml.org,2002:merge"
  | .null => "tag:yaml.org,2002:null"
  | .timestamp => "tag:yaml.org,2002:timestamp"
  | .value => "tag:yaml.org,2002:value"
  | .text => "tag:yaml.org,2002:str"

def Kind.all : List Kind := [.bool, .float, .int, .merge, .null, .timestamp, .value, .text]

def trueWords : List String := ["yes", "Yes", "YES", "true", "True", "TRUE", "on", "On", "ON"]

def falseWords : List String := ["no", "No", "NO", "false", "False", "FALSE", "off", "Off", "OFF"]

def isNull (text : String) : Bool := ["", "~", "null", "Null", "NULL"].contains text

def dropSign : List Char → List Char
  | '+' :: rest => rest
  | '-' :: rest => rest
  | text => text

def isDigitOrScore (c : Char) : Bool := c.isDigit || c == '_'

def isExponentOrEmpty : List Char → Bool
  | [] => true
  | mark :: sign :: digits =>
    (mark == 'e' || mark == 'E') && (sign == '+' || sign == '-') && !digits.isEmpty &&
      digits.all Char.isDigit
  | _ => false

def sixties : Nat → List Char → Nat × List Char
  | 0, text => (0, text)
  | fuel + 1, ':' :: a :: b :: rest =>
    if '0' ≤ a && a ≤ '5' && b.isDigit then
      let (count, left) := sixties fuel rest
      (count + 1, left)
    else if a.isDigit then
      let (count, left) := sixties fuel (b :: rest)
      (count + 1, left)
    else (0, ':' :: a :: b :: rest)
  | fuel + 1, ':' :: a :: rest =>
    if a.isDigit then
      let (count, left) := sixties fuel rest
      (count + 1, left)
    else (0, ':' :: a :: rest)
  | _, text => (0, text)

def startsWithDigit : List Char → Bool
  | c :: _ => c.isDigit
  | [] => false

def isPointed (text : List Char) : Bool :=
  startsWithDigit text &&
    match text.dropWhile isDigitOrScore with
    | '.' :: rest => isExponentOrEmpty (rest.dropWhile isDigitOrScore)
    | _ => false

def isBarePointed : List Char → Bool
  | '.' :: rest => startsWithDigit rest && isExponentOrEmpty (rest.dropWhile isDigitOrScore)
  | _ => false

def isSixtyFloat (text : List Char) : Bool :=
  startsWithDigit text &&
    let (count, left) := sixties text.length (text.dropWhile isDigitOrScore)
    0 < count && match left with
      | '.' :: rest => rest.all isDigitOrScore
      | _ => false

def isInfinityWord (text : List Char) : Bool :=
  [".inf", ".Inf", ".INF"].contains (String.ofList text)

def isFloat (text : List Char) : Bool :=
  isPointed (dropSign text) || isBarePointed text || isSixtyFloat (dropSign text) ||
    isInfinityWord (dropSign text) || [".nan", ".NaN", ".NAN"].contains (String.ofList text)

def isHexOrScore (c : Char) : Bool :=
  isDigitOrScore c || ('a' ≤ c && c ≤ 'f') || ('A' ≤ c && c ≤ 'F')

def isInt (text : List Char) : Bool :=
  match dropSign text with
  | '0' :: 'b' :: rest => !rest.isEmpty && rest.all fun c => c == '0' || c == '1' || c == '_'
  | '0' :: 'x' :: rest => !rest.isEmpty && rest.all isHexOrScore
  | ['0'] => true
  | '0' :: rest => rest.all fun c => ('0' ≤ c && c ≤ '7') || c == '_'
  | c :: rest =>
    '1' ≤ c && c ≤ '9' &&
      let left := rest.dropWhile isDigitOrScore
      left.isEmpty || (sixties left.length left).2.isEmpty
  | [] => false

def digitsOf (count : Nat) (text : List Char) : Option (Nat × List Char) :=
  let digits := text.take count
  if digits.length == count && digits.all Char.isDigit then
    some (digits.foldl (fun total c => total * 10 + (c.toNat - 48)) 0, text.drop count)
  else none

def oneOrTwoDigits (text : List Char) : Option (Nat × List Char) :=
  match digitsOf 2 text with
  | some found => some found
  | none => digitsOf 1 text

def takeChar (c : Char) : List Char → Option (List Char)
  | d :: rest => if c == d then some rest else none
  | [] => none

structure Moment where
  year : Nat
  month : Nat
  day : Nat
  time : Option (Nat × Nat × Nat × Nat) := none
  offset : Option Int := none
deriving Repr

def microseconds (digits : List Char) : Nat :=
  let shown := (digits.take 6) ++ List.replicate (6 - digits.length) '0'
  shown.foldl (fun total c => total * 10 + (c.toNat - 48)) 0

def zone? (text : List Char) : Option (Option Int) :=
  let text := text.dropWhile fun c => c == ' ' || c == '\t'
  match text with
  | [] => some none
  | ['Z'] => some (some 0)
  | sign :: rest => do
    if sign != '+' && sign != '-' then none
    let (hours, rest) ← oneOrTwoDigits rest
    let minutes ← match rest with
      | [] => some 0
      | ':' :: rest => do
        let (minutes, rest) ← digitsOf 2 rest
        if rest.isEmpty then some minutes else none
      | _ => none
    let total : Int := hours * 60 + minutes
    some (some (if sign == '-' then -total else total))

def timeOfDay? (text : List Char) : Option ((Nat × Nat × Nat × Nat) × Option Int) := do
  let (hour, text) ← oneOrTwoDigits text
  let (minute, text) ← digitsOf 2 (← takeChar ':' text)
  let (second, text) ← digitsOf 2 (← takeChar ':' text)
  let (fraction, text) := match text with
    | '.' :: rest => (rest.takeWhile Char.isDigit, rest.dropWhile Char.isDigit)
    | _ => ([], text)
  let blanksOnly := !text.isEmpty && text.all fun c => c == ' ' || c == '\t'
  if blanksOnly then none
  let offset ← zone? text
  return ((hour, minute, second, microseconds fraction), offset)

def moment? (text : List Char) : Option Moment := do
  let (year, rest) ← digitsOf 4 text
  let rest ← takeChar '-' rest
  let simple : Option Moment := do
    let (month, rest) ← digitsOf 2 rest
    let (day, rest) ← digitsOf 2 (← takeChar '-' rest)
    if rest.isEmpty then some { year, month, day } else none
  match simple with
  | some moment => return moment
  | none =>
    let (month, rest) ← oneOrTwoDigits rest
    let (day, rest) ← oneOrTwoDigits (← takeChar '-' rest)
    let rest ← match rest with
      | 't' :: rest => some rest
      | 'T' :: rest => some rest
      | ' ' :: _ => some (rest.dropWhile fun c => c == ' ' || c == '\t')
      | '\t' :: _ => some (rest.dropWhile fun c => c == ' ' || c == '\t')
      | _ => none
    let (time, offset) ← timeOfDay? rest
    return { year, month, day, time := some time, offset }

def kindOf (text : String) : Kind :=
  let chars := text.toList
  if trueWords.contains text || falseWords.contains text then .bool
  else if isFloat chars then .float
  else if isInt chars then .int
  else if text == "<<" then .merge
  else if isNull text then .null
  else if (moment? chars).isSome then .timestamp
  else if text == "=" then .value
  else .text

def dropScores (text : String) : List Char := text.toList.filter (· != '_')

def digitsIn (base : Nat) (text : List Char) : Option Nat :=
  if text.isEmpty then none
  else text.foldl
    (fun total c => do
      let total ← total
      let digit :=
        if c.isDigit then c.toNat - 48
        else if 'a' ≤ c && c ≤ 'f' then c.toNat - 87
        else if 'A' ≤ c && c ≤ 'F' then c.toNat - 55
        else 99
      if digit < base then some (total * base + digit) else none)
    (some 0)

def colonPieces (text : List Char) : List (List Char) :=
  text.foldr
    (fun c pieces =>
      if c == ':' then [] :: pieces
      else match pieces with
        | [] => [[c]]
        | piece :: others => (c :: piece) :: others)
    [[]]

def readInt? (text : String) : Option Int := do
  let chars := dropScores text
  let negative := chars.head? == some '-'
  let body := dropSign chars
  let magnitude ← match body with
    | ['0'] => some 0
    | '0' :: 'b' :: rest => digitsIn 2 rest
    | '0' :: 'x' :: rest => digitsIn 16 rest
    | '0' :: rest => digitsIn 8 ('0' :: rest)
    | _ =>
      if body.contains ':' then
        (colonPieces body).foldl (fun total piece => do return (← total) * 60 + (← digitsIn 10 piece)) (some 0)
      else digitsIn 10 body
  return if negative then -(magnitude : Int) else magnitude

def readDecimal? (negative : Bool) (text : List Char) : Option Binary64 := do
  let whole := text.takeWhile Char.isDigit
  let rest := text.drop whole.length
  let (fraction, rest) := match rest with
    | '.' :: rest => (rest.takeWhile Char.isDigit, rest.dropWhile Char.isDigit)
    | _ => ([], rest)
  let exponent : Int ← match rest with
    | [] => some 0
    | mark :: sign :: digits => do
      if mark != 'e' && mark != 'E' then none
      let value ← digitsIn 10 (if sign.isDigit then sign :: digits else digits)
      some (if sign == '-' then -(value : Int) else value)
    | _ => none
  if whole.isEmpty && fraction.isEmpty then none
  let digits := (digitsIn 10 (whole ++ fraction)).getD 0
  return Binary64.ofDecimal negative digits (exponent - fraction.length)

def sixtySum (weight : Int) (total : Binary64) : List Binary64 → Binary64
  | [] => total
  | part :: rest => sixtySum (weight * 60) (total.add (part.mul (Binary64.ofInt weight))) rest

def readFloat? (text : String) : Option Binary64 := do
  let chars := (dropScores text).map Char.toLower
  let negative := chars.head? == some '-'
  let body := dropSign chars
  if body == ".inf".toList then return .infinite negative
  else if body == ".nan".toList then return .undefined
  else if body.contains ':' then
    let parts ← (colonPieces body).mapM (readDecimal? false)
    let total := sixtySum 1 (.finite 0) parts.reverse
    return if negative then total.neg else total
  else readDecimal? negative body

def daysIn (year month : Nat) : Nat :=
  if month == 2 then
    if year % 4 == 0 && (year % 100 != 0 || year % 400 == 0) then 29 else 28
  else if [4, 6, 9, 11].contains month then 30 else 31

def padded (width value : Nat) : String := String.ofList (padZeros width (digitText value))

def zoneText (minutes : Int) : String :=
  let seconds := minutes * 60
  if minutes == 0 then "datetime.timezone.utc"
  else if minutes < 0 then
    s!"datetime.timezone(datetime.timedelta(days=-1, seconds={seconds + 86400}))"
  else s!"datetime.timezone(datetime.timedelta(seconds={seconds}))"

/-- The text of a moment, and its text inside other data; none if there is no such day or time. -/
def Moment.value? (moment : Moment) : Option Value := do
  if moment.year < 1 || moment.month < 1 || 12 < moment.month || moment.day < 1 ||
      daysIn moment.year moment.month < moment.day then none
  let day := s!"{padded 4 moment.year}-{padded 2 moment.month}-{padded 2 moment.day}"
  match moment.time with
  | none =>
    return .date day s!"datetime.date({moment.year}, {moment.month}, {moment.day})"
  | some (hour, minute, second, micro) =>
    if 23 < hour || 59 < minute || 59 < second then none
    let clock := s!"{padded 2 hour}:{padded 2 minute}:{padded 2 second}"
    let clock := if micro == 0 then clock else clock ++ "." ++ padded 6 micro
    let zone ← match moment.offset with
      | none => some ""
      | some minutes =>
        if 1440 ≤ minutes.natAbs then none
        else
          let sign := if minutes < 0 then "-" else "+"
          some (sign ++ padded 2 (minutes.natAbs / 60) ++ ":" ++ padded 2 (minutes.natAbs % 60))
    let shown := day ++ " " ++ clock ++ zone
    let parts := [moment.year, moment.month, moment.day, hour, minute] ++
      (if second == 0 && micro == 0 then [] else [second]) ++ (if micro == 0 then [] else [micro])
    let inner := (parts.map toString) ++
      (moment.offset.toList.map fun minutes => "tzinfo=" ++ zoneText minutes)
    return .date shown ("datetime.datetime(" ++ ", ".intercalate inner ++ ")")

/-- What a text denotes as a scalar of a kind; none if it spells nothing of the kind. -/
def Kind.read? (kind : Kind) (text : String) : Option Value :=
  match kind with
  | .bool =>
    let word := text.toLower
    if ["yes", "true", "on"].contains word then some (.bool true)
    else if ["no", "false", "off"].contains word then some (.bool false)
    else none
  | .float => (readFloat? text).map .float
  | .int => (readInt? text).map .int
  | .null => some .null
  | .timestamp => (moment? text.toList).bind Moment.value?
  | .text => some (.string text)
  | .merge | .value => none

end Arborist.Yaml
