import Arborist.Text.Utf8

/-!
The encodings in which a file can be read, all leniently.
-/

namespace Arborist.Text

inductive Encoding where
  | utf8
  | ascii
  | latin1
  | utf16LittleEndian
deriving DecidableEq, Repr

namespace Encoding

def ofName? (name : String) : Option Encoding :=
  let plain := String.ofList ((name.toList.map Char.toLower).map fun c => if c == '_' || c == ' ' then '-' else c)
  if ["utf-8", "utf8", "u8", "cp65001"].contains plain then some .utf8
  else if ["ascii", "us-ascii", "646"].contains plain then some .ascii
  else if ["latin-1", "latin1", "iso-8859-1", "iso8859-1", "8859", "cp819", "l1", "latin"].contains plain then
    some .latin1
  else if ["utf-16-le", "utf-16le", "unicodelittleunmarked"].contains plain then some .utf16LittleEndian
  else none

/-- Units of two bytes, low byte first; a byte left over at the end is none. -/
def units : List UInt8 → List (Option Nat)
  | [] => []
  | [_] => [none]
  | low :: high :: rest => some (low.toNat + 256 * high.toNat) :: units rest

/-- A pair of surrogates is one character; a unit that is left alone, and an unfinished pair with the
byte after it, are one replacement character.  The first unit of a pair waits for the second. -/
def decodeUnits (waiting : Option Nat) : List (Option Nat) → List Char
  | [] => waiting.toList.map fun _ => replacementChar
  | none :: rest => replacementChar :: decodeUnits none rest
  | some unit :: rest =>
    let alone := waiting.toList.map fun _ => replacementChar
    if 0xDC00 ≤ unit && unit < 0xE000 then
      match waiting with
      | some first => Char.ofNat (0x10000 + (first - 0xD800) * 0x400 + (unit - 0xDC00)) :: decodeUnits none rest
      | none => replacementChar :: decodeUnits none rest
    else if 0xD800 ≤ unit && unit < 0xDC00 then alone ++ decodeUnits (some unit) rest
    else alone ++ Char.ofNat unit :: decodeUnits none rest

def decode (encoding : Encoding) (bytes : List UInt8) : List Char :=
  match encoding with
  | .utf8 => Utf8.decode bytes
  | .ascii => bytes.map fun byte => if byte < 0x80 then Char.ofNat byte.toNat else replacementChar
  | .latin1 => bytes.map fun byte => Char.ofNat byte.toNat
  | .utf16LittleEndian => decodeUnits none (units bytes)

end Encoding

end Arborist.Text
