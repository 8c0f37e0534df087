/-!
The 8-bit encoding of text.  Reading is lenient: every maximal run of bytes that starts a character
and cannot be completed counts as one replacement character, and so does every other stray byte.
-/

namespace Arborist.Text

def replacementChar : Char := Char.ofNat 0xFFFD

namespace Utf8

/-- A character that has begun: how many bytes are missing, the range in which the next one must
lie, and the bits read so far. -/
structure Pending where
  missing : Nat
  low : UInt8
  high : UInt8
  bits : Nat

inductive Opening where
  | whole (char : Char)
  | partly (pending : Pending)
  | stray

def opening (byte : UInt8) : Opening :=
  let code := byte.toNat
  if code < 0x80 then .whole (Char.ofNat code)
  else if code < 0xC2 then .stray
  else if code < 0xE0 then .partly ⟨1, 0x80, 0xBF, code - 0xC0⟩
  else if code = 0xE0 then .partly ⟨2, 0xA0, 0xBF, 0⟩
  else if code = 0xED then .partly ⟨2, 0x80, 0x9F, 0xD⟩
  else if code < 0xF0 then .partly ⟨2, 0x80, 0xBF, code - 0xE0⟩
  else if code = 0xF0 then .partly ⟨3, 0x90, 0xBF, 0⟩
  else if code < 0xF4 then .partly ⟨3, 0x80, 0xBF, code - 0xF0⟩
  else if code = 0xF4 then .partly ⟨3, 0x80, 0x8F, 4⟩
  else .stray

structure Decoder where
  pending : Option Pending := none
  output : List Char := []

def Decoder.open (decoder : Decoder) (byte : UInt8) : Decoder :=
  match opening byte with
  | .whole char => ⟨none, char :: decoder.output⟩
  | .partly pending => ⟨some pending, decoder.output⟩
  | .stray => ⟨none, replacementChar :: decoder.output⟩

def Decoder.step (decoder : Decoder) (byte : UInt8) : Decoder :=
  match decoder.pending with
  | none => decoder.open byte
  | some pending =>
    if pending.low ≤ byte && byte ≤ pending.high then
      let bits := pending.bits * 64 + (byte.toNat - 0x80)
      if pending.missing ≤ 1 then ⟨none, Char.ofNat bits :: decoder.output⟩
      else ⟨some ⟨pending.missing - 1, 0x80, 0xBF, bits⟩, decoder.output⟩
    else Decoder.open ⟨none, replacementChar :: decoder.output⟩ byte

def Decoder.finish (decoder : Decoder) : List Char :=
  match decoder.pending with
  | none => decoder.output.reverse
  | some _ => (replacementChar :: decoder.output).reverse

def decode (bytes : List UInt8) : List Char :=
  (bytes.foldl Decoder.step {}).finish

def width (c : Char) : Nat :=
  if c.toNat < 0x80 then 1 else if c.toNat < 0x800 then 2 else if c.toNat < 0x10000 then 3 else 4

def byteLength (text : List Char) : Nat := text.foldl (fun total c => total + width c) 0

end Utf8

end Arborist.Text
