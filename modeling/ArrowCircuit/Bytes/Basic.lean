import ArrowCircuit.Text.Basic

/-!
# Byte strings

Numbers as byte strings of a fixed width, in both orders of significance, the hexadecimal text of
byte strings, and the UTF-8 form of strings. A text with surrogates has no UTF-8 form.
-/

namespace ArrowCircuit

/-- A byte string. -/
abbrev Bytes := List UInt8

namespace Bytes

/-- The lowest `width` bytes of a number, the lowest first. -/
def littleEndian : (width n : Nat) → Bytes
  | 0, _ => []
  | width + 1, n => UInt8.ofNat n :: littleEndian width (n / 256)

/-- The lowest `width` bytes of a number, the highest first. -/
def bigEndian (width n : Nat) : Bytes := (littleEndian width n).reverse

/-- The number of a byte string, the highest byte first. -/
def toNat (bs : Bytes) : Nat := bs.foldl (fun n b => n * 256 + b.toNat) 0

/-- The two lower-case hexadecimal digits of a byte. -/
def byteHex (b : UInt8) : List Char :=
  let digit (n : Nat) : Char := if n < 10 then Char.ofNat (0x30 + n) else Char.ofNat (0x57 + n)
  [digit (b.toNat / 16), digit (b.toNat % 16)]

/-- The lower-case hexadecimal text of a byte string. -/
def hex (bs : Bytes) : String := String.ofList (bs.flatMap byteHex)

/-- A string of zero bytes. -/
def zeros (n : Nat) : Bytes := List.replicate n 0

/-- The bytes from `start` on, `length` of them at most. -/
def slice (bs : Bytes) (start length : Nat) : Bytes := (bs.drop start).take length

/-- The bytes of a string. -/
def ofString (s : String) : Bytes := s.toUTF8.toList

/-- The string of a byte string, if it is well formed. -/
def toString? (bs : Bytes) : Option String := String.fromUTF8? ⟨bs.toArray⟩

/-- The bytes of a text, if it has no surrogate. -/
def ofText? (t : Text) : Option Bytes := t.toString?.map ofString

end Bytes

end ArrowCircuit
