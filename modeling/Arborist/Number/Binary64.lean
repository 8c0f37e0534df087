/-!
Numbers of the 64-bit binary format.  A finite number is held as the exact rational it denotes, and
every operation computes exactly and rounds once, to the nearest representable number, halves to the
even neighbour.
-/

namespace Arborist

def twoPow (exponent : Int) : Rat :=
  if 0 ≤ exponent then (Int.pow 2 exponent.toNat : Int) else 1 / (Int.pow 2 (-exponent).toNat : Int)

def nearestInteger (value : Rat) : Int :=
  let low := value.floor
  let rest := value - low
  if rest < 1 / 2 then low
  else if 1 / 2 < rest then low + 1
  else if low % 2 = 0 then low else low + 1

def towardZero (value : Rat) : Int :=
  Int.tdiv value.num value.den

def binaryExponent (value : Rat) : Int :=
  let guess : Int := (value.num.toNat.log2 : Int) - (value.den.log2 : Int)
  if value < twoPow guess then guess - 1 else guess

inductive Binary64 where
  | finite (value : Rat)
  | negativeZero
  | infinite (negative : Bool)
  | undefined
deriving DecidableEq, Inhabited

namespace Binary64

/-- Rounding of a positive rational: 53 binary digits, and none below the exponent -1074. -/
def ofPositive (value : Rat) : Binary64 :=
  let unit := max (binaryExponent value - 52) (-1074)
  let rounded : Rat := nearestInteger (value / twoPow unit) * twoPow unit
  if twoPow 1024 ≤ rounded then .infinite false else .finite rounded

def ofRat (value : Rat) : Binary64 :=
  if value = 0 then .finite 0
  else if 0 < value then ofPositive value
  else match ofPositive (-value) with
    | .finite magnitude => if magnitude = 0 then .negativeZero else .finite (-magnitude)
    | .infinite _ => .infinite true
    | other => other

def ofInt (value : Int) : Binary64 := ofRat value

def ofDecimal (negative : Bool) (digits : Nat) (exponent : Int) : Binary64 :=
  if digits = 0 then (if negative then .negativeZero else .finite 0)
  else if 400 < exponent then .infinite negative
  else if exponent < -400 - (digits.log2 : Int) then (if negative then .negativeZero else .finite 0)
  else
    let scale : Rat := if 0 ≤ exponent then (Int.pow 10 exponent.toNat : Int)
      else 1 / (Int.pow 10 (-exponent).toNat : Int)
    let magnitude : Rat := (digits : Int) * scale
    ofRat (if negative then -magnitude else magnitude)

def isNegative : Binary64 → Bool
  | .finite value => value < 0
  | .negativeZero => true
  | .infinite negative => negative
  | .undefined => false

def toRat? : Binary64 → Option Rat
  | .finite value => some value
  | .negativeZero => some 0
  | _ => none

def neg : Binary64 → Binary64
  | .finite value => if value = 0 then .negativeZero else .finite (-value)
  | .negativeZero => .finite 0
  | .infinite negative => .infinite (!negative)
  | .undefined => .undefined

def add (left right : Binary64) : Binary64 :=
  match left, right with
  | .undefined, _ | _, .undefined => .undefined
  | .infinite first, .infinite second => if first = second then .infinite first else .undefined
  | .infinite negative, _ | _, .infinite negative => .infinite negative
  | .negativeZero, .negativeZero => .negativeZero
  | .negativeZero, other => other
  | other, .negativeZero => other
  | .finite first, .finite second => ofRat (first + second)

def sub (left right : Binary64) : Binary64 := left.add right.neg

def mul (left right : Binary64) : Binary64 :=
  let negative := left.isNegative != right.isNegative
  match left, right with
  | .undefined, _ | _, .undefined => .undefined
  | .infinite _, other | other, .infinite _ =>
    if other.toRat? = some 0 then .undefined else .infinite negative
  | first, second =>
    match first.toRat?, second.toRat? with
    | some a, some b =>
      if a * b = 0 then (if negative then .negativeZero else .finite 0) else ofRat (a * b)
    | _, _ => .undefined

def quotient (dividend divisor : Rat) : Binary64 := ofRat (dividend / divisor)

def lt (left right : Binary64) : Bool :=
  match left, right with
  | .undefined, _ | _, .undefined => false
  | .infinite first, .infinite second => first && !second
  | .infinite negative, _ => negative
  | _, .infinite negative => !negative
  | first, second =>
    match first.toRat?, second.toRat? with
    | some a, some b => a < b
    | _, _ => false

def le (left right : Binary64) : Bool :=
  match left, right with
  | .undefined, _ | _, .undefined => false
  | first, second => !second.lt first

end Binary64

end Arborist
