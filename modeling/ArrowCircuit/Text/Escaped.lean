import ArrowCircuit.Text.Quoted

/-!
# ASCII string literals

The JSON form of a text between double quotes in which every code point outside ASCII is an escape
`\uXXXX`; a code point above `0xffff` is written as the pair of its UTF-16 units.
-/

namespace ArrowCircuit.Text

/-- The escape of one 16-bit unit. -/
def unitEscape (u : Nat) : List Char := ['\\', 'u'] ++ hexDigits 4 u

/-- The leading and the trailing UTF-16 unit of a code point above `0xffff`. -/
def surrogatePair (c : Nat) : Nat × Nat :=
  (0xd800 + (c - 0x10000) / 0x400, 0xdc00 + (c - 0x10000) % 0x400)

/-- The escapes that have a letter of their own, and the two that escape themselves. -/
def shortEscape? (c : Nat) : Option (List Char) :=
  if c = 0x22 then some ['\\', '"']
  else if c = 0x5c then some ['\\', '\\']
  else if c = 0xa then some ['\\', 'n']
  else if c = 0xd then some ['\\', 'r']
  else if c = 0x9 then some ['\\', 't']
  else if c = 0x8 then some ['\\', 'b']
  else if c = 0xc then some ['\\', 'f']
  else none

/-- One code point of an ASCII string literal. -/
def escapedPoint (c : Nat) : List Char :=
  match shortEscape? c with
  | some e => e
  | none =>
    if 0x20 ≤ c ∧ c < 0x7f then [charOf c]
    else if c < 0x10000 then unitEscape c
    else unitEscape (surrogatePair c).1 ++ unitEscape (surrogatePair c).2

/-- The text as an ASCII string literal. -/
def escaped (t : Text) : String := String.ofList ('"' :: t.flatMap escapedPoint ++ ['"'])

/-- One code point of a string literal that keeps characters outside ASCII. -/
def unicodePoint (c : Nat) : List Char :=
  match shortEscape? c with
  | some e => e
  | none => if c < 0x20 then unitEscape c else [charOf c]

/-- The text as a string literal that keeps characters outside ASCII. -/
def escapedUnicode (t : Text) : String := String.ofList ('"' :: t.flatMap unicodePoint ++ ['"'])

end ArrowCircuit.Text
