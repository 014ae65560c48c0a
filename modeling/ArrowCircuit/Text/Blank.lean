import ArrowCircuit.Text.Basic

/-!
# Blanks and line ends

The code points that count as white space, and their removal at the ends of a text. The four
information separators `0x1c` to `0x1f` are blanks of a text but not around a numeral.

Text that is read from files has one kind of line end: a carriage return, with or without a line feed
behind it, counts as a line feed.
-/

namespace ArrowCircuit.Text

/-- White space around a numeral: the ASCII blanks and the space separators of all scripts. -/
def isNumeralBlank (c : Nat) : Bool :=
  (0x9 ≤ c && c ≤ 0xd) || c == 0x20 || c == 0x85 || c == 0xa0 || c == 0x1680 ||
    (0x2000 ≤ c && c ≤ 0x200a) || c == 0x2028 || c == 0x2029 || c == 0x202f || c == 0x205f ||
    c == 0x3000

/-- White space around a text. -/
def isBlank (c : Nat) : Bool := isNumeralBlank c || (0x1c ≤ c && c ≤ 0x1f)

/-- The text without the code points of class `p` at its end. -/
def dropRightWhile (p : Nat → Bool) (t : Text) : Text := (t.reverse.dropWhile p).reverse

/-- The text without the code points of class `p` at both ends. -/
def stripWith (p : Nat → Bool) (t : Text) : Text := dropRightWhile p (t.dropWhile p)

/-- The text without blanks at both ends. -/
def strip (t : Text) : Text := stripWith isBlank t

/-- The characters of a text with all line ends turned into line feeds. -/
def unifyLineEndChars : List Char → List Char
  | '\r' :: '\n' :: rest => '\n' :: unifyLineEndChars rest
  | '\r' :: rest => '\n' :: unifyLineEndChars rest
  | c :: rest => c :: unifyLineEndChars rest
  | [] => []

/-- A text with all line ends turned into line feeds. -/
def unifyLineEnds (s : String) : String := String.ofList (unifyLineEndChars s.toList)

end ArrowCircuit.Text
