/-!
Bytes written in the sixty-four characters of base 64, three bytes in four characters.
-/

namespace Arborist.Text

def base64Alphabet : List Char :=
  "ABCDEFGHIJKLMNOPQRSTUVWXYZabcdefghijklmnopqrstuvwxyz0123456789+/".toList

def base64Digit (value : Nat) : Char := (base64Alphabet[value % 64]?).getD '='

def base64 : List UInt8 → List Char
  | [] => []
  | [first] =>
    let group := first.toNat * 16
    [base64Digit (group / 64), base64Digit group, '=', '=']
  | [first, second] =>
    let group := (first.toNat * 256 + second.toNat) * 4
    [base64Digit (group / 4096), base64Digit (group / 64), base64Digit group, '=']
  | first :: second :: third :: rest =>
    let group := (first.toNat * 256 + second.toNat) * 256 + third.toNat
    base64Digit (group / 262144) :: base64Digit (group / 4096) :: base64Digit (group / 64) ::
      base64Digit group :: base64 rest

end Arborist.Text
