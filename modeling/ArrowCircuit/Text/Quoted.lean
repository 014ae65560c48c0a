import ArrowCircuit.Text.Printable

/-!
# Quoted text in messages

A diagnostic shows a text between quotes so that every code point can be told from its neighbours:
single quotes, or double quotes when the text holds a single and no double quote. The backslash and
the quote in use are escaped by a backslash, unprintable code points by their hexadecimal number.
-/

namespace ArrowCircuit.Text

/-- The lower-case hexadecimal digit of a number below sixteen. -/
def hexDigit (n : Nat) : Char := if n < 10 then Char.ofNat (0x30 + n) else Char.ofNat (0x57 + n)

/-- The last `width` hexadecimal digits of `n`. -/
def hexDigits : (width : Nat) → (n : Nat) → List Char
  | 0, _ => []
  | width + 1, n => hexDigits width (n / 16) ++ [hexDigit (n % 16)]

/-- How one code point is shown between quotes `quote`. -/
def quotedPoint (quote c : Nat) : List Char :=
  if c = quote ∨ c = 0x5c then ['\\', charOf c]
  else if c = 0x9 then ['\\', 't']
  else if c = 0xa then ['\\', 'n']
  else if c = 0xd then ['\\', 'r']
  else if isPrintable c then [charOf c]
  else if c < 0x100 then ['\\', 'x'] ++ hexDigits 2 c
  else if c < 0x10000 then ['\\', 'u'] ++ hexDigits 4 c
  else ['\\', 'U'] ++ hexDigits 8 c

/-- The quote a text is shown with. -/
def quoteFor (t : Text) : Nat := if 0x27 ∈ t ∧ 0x22 ∉ t then 0x22 else 0x27

/-- The text as it is shown in a message. -/
def quoted (t : Text) : String :=
  let quote := quoteFor t
  String.ofList (Char.ofNat quote :: t.flatMap (quotedPoint quote) ++ [Char.ofNat quote])

end ArrowCircuit.Text
