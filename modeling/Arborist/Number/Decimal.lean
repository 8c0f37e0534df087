import Arborist.Number.Binary64

/-!
Decimal texts of numbers: with a fixed number of places, and with the fewest digits that read back.
-/

namespace Arborist

def tenPow (exponent : Int) : Rat :=
  if 0 ≤ exponent then (Int.pow 10 exponent.toNat : Int) else 1 / (Int.pow 10 (-exponent).toNat : Int)

def digitText (value : Nat) : List Char := Nat.toDigits 10 value

def padZeros (width : Nat) (digits : List Char) : List Char :=
  List.replicate (width - digits.length) '0' ++ digits

def padLeft (width : Nat) (text : String) : String :=
  String.ofList (List.replicate (width - text.length) ' ') ++ text

def padRight (width : Nat) (text : String) : String :=
  text ++ String.ofList (List.replicate (width - text.length) ' ')

namespace Decimal

def fixedMagnitude (places : Nat) (magnitude : Rat) : String :=
  let scaled := (nearestInteger (magnitude * tenPow places)).toNat
  let digits := padZeros (places + 1) (digitText scaled)
  let whole := digits.take (digits.length - places)
  let fraction := digits.drop (digits.length - places)
  String.ofList (if places = 0 then whole else whole ++ '.' :: fraction)

def exponentOf (value : Rat) : Int :=
  let guess : Int := ((digitText value.num.toNat).length : Int) - ((digitText value.den).length : Int)
  if value < tenPow guess then guess - 1 else guess

/-- A decimal that reads back as the given number: its digits and the exponent of the first one. -/
structure Digits where
  digits : List Char
  exponent : Int

def neighbours (value : Rat) (unit : Rat) : List Int :=
  let low := (value / unit).floor
  let rest := value / unit - low
  if rest < 1 / 2 then [low, low + 1]
  else if 1 / 2 < rest then [low + 1, low]
  else if low % 2 = 0 then [low, low + 1] else [low + 1, low]

def shortestFrom (value : Rat) (exponent : Int) : Nat → Nat → Digits
  | 0, count => ⟨digitText (value / tenPow (exponent - count + 1)).floor.toNat, exponent⟩
  | fuel + 1, count =>
    let unit := tenPow (exponent - count + 1)
    match (neighbours value unit).find? fun (candidate : Int) =>
        Binary64.ofRat (candidate * unit) = .finite value with
    | some candidate =>
      let digits := digitText candidate.toNat
      ⟨digits, exponent + (digits.length - count)⟩
    | none => shortestFrom value exponent fuel (count + 1)

/-- The fewest digits that read back as a positive number, nearest among those. -/
def shortest (value : Rat) : Digits :=
  let found := shortestFrom value (exponentOf value) 17 1
  let trimmed := (found.digits.reverse.dropWhile (· = '0')).reverse
  { found with digits := trimmed }

/-- Positional from 10^-4 up to 10^16, with a point always present; otherwise with an exponent of at
least two digits. -/
def Digits.text (decimal : Digits) : String :=
  let count : Int := decimal.digits.length
  if decimal.exponent < -4 || 16 ≤ decimal.exponent then
    let mantissa := match decimal.digits with
      | [] => []
      | [only] => [only]
      | first :: others => first :: '.' :: others
    let sign := if decimal.exponent < 0 then '-' else '+'
    String.ofList (mantissa ++ 'e' :: sign :: padZeros 2 (digitText decimal.exponent.natAbs))
  else if decimal.exponent < 0 then
    String.ofList ('0' :: '.' :: List.replicate (-decimal.exponent - 1).toNat '0' ++ decimal.digits)
  else
    let whole := (decimal.exponent + 1).toNat
    if count ≤ decimal.exponent + 1 then
      String.ofList (decimal.digits ++ List.replicate (whole - decimal.digits.length) '0' ++ ['.', '0'])
    else
      String.ofList (decimal.digits.take whole ++ '.' :: decimal.digits.drop whole)

end Decimal

namespace Binary64

def fixedText (places : Nat) : Binary64 → String
  | .finite value =>
    if value < 0 then "-" ++ Decimal.fixedMagnitude places (-value) else Decimal.fixedMagnitude places value
  | .negativeZero => "-" ++ Decimal.fixedMagnitude places 0
  | .infinite negative => if negative then "-inf" else "inf"
  | .undefined => "nan"

def shortestText : Binary64 → String
  | .finite value =>
    if value = 0 then "0.0"
    else if value < 0 then "-" ++ (Decimal.shortest (-value)).text
    else (Decimal.shortest value).text
  | .negativeZero => "-0.0"
  | .infinite negative => if negative then "-inf" else "inf"
  | .undefined => "nan"

def roundPlaces (places : Nat) : Binary64 → Binary64
  | .finite value =>
    let magnitude : Rat := nearestInteger (value * tenPow places) / tenPow places
    match ofRat magnitude with
    | .finite rounded => if rounded = 0 && value < 0 then .negativeZero else .finite rounded
    | other => other
  | other => other

end Binary64

end Arborist
