/-!
# Text

A text is a list of Unicode code points. It may hold surrogates, which a `String` cannot: the
escapes of a string literal can name them one by one. Everything that is read as a value (string
literals, input values, JSON strings) is a text; names, messages and programs are `String`s.
-/

namespace ArrowCircuit

/-- A list of Unicode code points, surrogates allowed. -/
abbrev Text := List Nat

namespace Text

/-- The code points of a string. -/
def ofString (s : String) : Text := s.toList.map Char.toNat

/-- Whether the code point is a surrogate, which is no character by itself. -/
def isSurrogate (c : Nat) : Bool := 0xd800 ≤ c && c ≤ 0xdfff

/-- Every code point is a character, so that the text has a UTF-8 form. -/
def isEncodable (t : Text) : Bool := t.all fun c => !isSurrogate c

/-- The character of a code point; a surrogate is shown as the replacement character. -/
def charOf (c : Nat) : Char := if isSurrogate c then Char.ofNat 0xfffd else Char.ofNat c

/-- The text as a string, where surrogates are shown as replacement characters. -/
def toStr (t : Text) : String := String.ofList (t.map charOf)

/-- The text as a string, if it has no surrogate. -/
def toString? (t : Text) : Option String := if isEncodable t then some (toStr t) else none

/-- Whether `t` starts with the characters of `s`. -/
def startsWith (t : Text) (s : String) : Bool := (ofString s).isPrefixOf t

/-- Whether `t` ends with the characters of `s`. -/
def endsWith (t : Text) (s : String) : Bool := (ofString s).isSuffixOf t

/-- ASCII letters in lower case, all else unchanged. -/
def asciiLower (t : Text) : Text := t.map fun c => if 0x41 ≤ c ∧ c ≤ 0x5a then c + 32 else c

/-- Lower case as far as it gives ASCII letters: of the capital letters and of the Kelvin sign. -/
def lower (t : Text) : Text := asciiLower (t.map fun c => if c = 0x212a then 0x6b else c)

/-- The parts of a text between the places where a code point stands. -/
def splitOn (sep : Nat) : Text → List Text
  | [] => [[]]
  | c :: rest =>
    match splitOn sep rest with
    | [] => [[c]]
    | part :: parts => if c = sep then [] :: part :: parts else (c :: part) :: parts

end Text

end ArrowCircuit
