import ArrowCircuit.Json.Reader

/-!
# String literals of scripts

The value of a string literal: escapes are replaced by the code points they name, and a backslash
before any other character stays as it is. A literal with a malformed numeric escape, a raw carriage
return or a null character has no value.

The escape `\N{NAME}`, which names a character of the Unicode name table, is not covered: the table
is no part of this development, so a literal with a backslash before `N` has no value here, as one
with an unknown or unfinished name has none.
-/

namespace ArrowCircuit.Script

/-- The code point of a one-letter escape. -/
def letterEscape? : Char → Option Nat
  | 'n' => some 0xa
  | 't' => some 0x9
  | 'r' => some 0xd
  | '\\' => some 0x5c
  | '\'' => some 0x27
  | '"' => some 0x22
  | 'a' => some 0x7
  | 'b' => some 0x8
  | 'f' => some 0xc
  | 'v' => some 0xb
  | _ => none

/-- Reads exactly `width` hexadecimal digits. -/
def readHex : (width value : Nat) → List Char → Option (Nat × List Char)
  | 0, value, cs => some (value, cs)
  | width + 1, value, c :: cs => (Json.hexValue? c).bind fun d => readHex width (value * 16 + d) cs
  | _ + 1, _, [] => none

/-- The value of an octal digit. -/
def octalValue? (c : Char) : Option Nat :=
  if '0' ≤ c ∧ c ≤ '7' then some (c.toNat - 0x30) else none

/-- Reads at most `width` octal digits. -/
def readOctal : (width value : Nat) → List Char → Nat × List Char
  | 0, value, cs => (value, cs)
  | width + 1, value, c :: cs =>
    match octalValue? c with
    | some d => readOctal width (value * 8 + d) cs
    | none => (value, c :: cs)
  | _ + 1, value, [] => (value, [])

/-- The number of digits of an escape that names a code point in hexadecimal. -/
def hexEscapeWidth? : Char → Option Nat
  | 'x' => some 2
  | 'u' => some 4
  | 'U' => some 8
  | _ => none

/-- The code points of what stands between the quotes. Escapes by character name have no value. -/
def unescape : (fuel : Nat) → List Char → Option Text
  | _, [] => some []
  | 0, _ => none
  | fuel + 1, '\\' :: c :: rest =>
    match letterEscape? c, octalValue? c, hexEscapeWidth? c with
    | some point, _, _ => (unescape fuel rest).map (point :: ·)
    | none, some d, _ =>
      let (point, rest) := readOctal 2 d rest
      (unescape fuel rest).map (point :: ·)
    | none, none, some width =>
      match readHex width 0 rest with
      | some (point, rest) =>
        if point < 0x110000 then (unescape fuel rest).map (point :: ·) else none
      | none => none
    | none, none, none =>
      -- `\N{NAME}` needs the Unicode name table; without it only the refusal of a bad name is right
      if c = 'N' then none
      else if c = '\r' then unescape fuel rest
      else (unescape fuel rest).map fun t => 0x5c :: c.toNat :: t
  | fuel + 1, c :: rest => if c = '\r' then none else (unescape fuel rest).map (c.toNat :: ·)

/-- The value of a string literal with its quotes. -/
def stringValue? (literal : List Char) : Option Text :=
  let inner := (literal.drop 1).dropLast
  if '\x00' ∈ inner then none else unescape inner.length inner

end ArrowCircuit.Script
