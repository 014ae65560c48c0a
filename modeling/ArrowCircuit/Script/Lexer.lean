import ArrowCircuit.Script.Token

/-!
# Reading tokens

`Cursor.next` reads one token behind a given context. Blanks and comments are skipped first. If no
terminal that the context accepts matches, the token is named as it would be in any context, and is
then the one to report; if no terminal matches at all, the character is.
-/

namespace ArrowCircuit.Script

/-- A fault of the token structure. -/
inductive ScanFault where
  /-- The token cannot continue the script. -/
  | unexpectedToken (token : Token)
  /-- No token starts with the character. -/
  | unexpectedCharacter (character : Char) (position : Position)
  deriving DecidableEq, Repr

/-- The place behind a character. -/
def Position.after (p : Position) (c : Char) : Position :=
  if c = '\n' then ⟨p.line + 1, 1⟩ else ⟨p.line, p.column + 1⟩

/-- The text that is still to be read, and where it starts. -/
structure Cursor where
  rest : List Char
  position : Position
  deriving DecidableEq, Repr

/-- The cursor behind the next `n` characters. -/
def Cursor.advance : (n : Nat) → Cursor → Cursor
  | 0, c => c
  | n + 1, ⟨[], p⟩ => Cursor.advance n ⟨[], p⟩
  | n + 1, ⟨c :: rest, p⟩ => Cursor.advance n ⟨rest, p.after c⟩

/-! ## Blanks and comments -/

/-- Space, tab, form feed, carriage return and line feed. -/
def isSpace (c : Char) : Bool :=
  c == ' ' || c == '\t' || c == '\x0c' || c == '\r' || c == '\n'

/-- The length of a block comment's text up to and including its end mark. -/
def commentLength? : List Char → Option Nat
  | '*' :: '/' :: _ => some 2
  | _ :: rest => (commentLength? rest).map (· + 1)
  | [] => none

/-- The length of the blank or comment at the front; zero when there is none. -/
def ignoredLength : List Char → Nat
  | '/' :: '/' :: rest => 2 + (rest.takeWhile (· != '\n')).length
  | '/' :: '*' :: rest => (commentLength? rest).elim 0 (· + 2)
  | c :: _ => if isSpace c then 1 else 0
  | [] => 0

/-- Skips blanks and comments. -/
def Cursor.skipIgnored : (fuel : Nat) → Cursor → Cursor
  | 0, c => c
  | fuel + 1, c =>
    match ignoredLength c.rest with
    | 0 => c
    | n + 1 => skipIgnored fuel (c.advance (n + 1))

/-! ## Lexemes -/

/-- A character that may start a name. -/
def isNameStart (c : Char) : Bool :=
  ('a' ≤ c && c ≤ 'z') || ('A' ≤ c && c ≤ 'Z') || c == '_' || c == '$'

/-- A decimal digit. -/
def isDecimal (c : Char) : Bool := '0' ≤ c && c ≤ '9'

/-- A hexadecimal digit. -/
def isHex (c : Char) : Bool := isDecimal c || ('a' ≤ c && c ≤ 'f') || ('A' ≤ c && c ≤ 'F')

/-- A character that may continue a name. -/
def isNamePart (c : Char) : Bool := isNameStart c || isDecimal c

/-- One for an `n` that marks a big integer, else zero. -/
def bigMark : List Char → Nat
  | 'n' :: _ => 1
  | _ => 0

/-- The length of the number at the front of a text that starts with a digit. -/
def numberLength (cs : List Char) : Nat :=
  let decimal := (cs.takeWhile isDecimal).length
  let decimal := decimal + bigMark (cs.drop decimal)
  match cs with
  | '0' :: x :: rest =>
    let digits := (rest.takeWhile isHex).length
    if (x = 'x' ∨ x = 'X') ∧ digits ≠ 0 then 2 + digits + bigMark (rest.drop digits) else decimal
  | _ => decimal

/-- The length of a string literal behind its opening quote, up to and including the closing one. A
backslash takes the next character with it; a line end closes nothing. -/
def stringLength? (quote : Char) : List Char → Option Nat
  | [] => none
  | '\n' :: _ => none
  | ['\\'] => none
  | '\\' :: c :: rest => if c = '\n' then none else (stringLength? quote rest).map (· + 2)
  | c :: rest => if c = quote then some 1 else (stringLength? quote rest).map (· + 1)

/-- The terminal of a word: a keyword where it is accepted, else a name. -/
def wordTerminal? (accepts : Terminal → Bool) (word : List Char) : Option Terminal :=
  match Terminal.keywords.find? fun k => k.1.toList == word && accepts k.2 with
  | some k => some k.2
  | none => if accepts .name then some .name else none

/-- The longest accepted symbol at the front of the text. -/
def symbol? (accepts : Terminal → Bool) (cs : List Char) : Option (Terminal × Nat) :=
  (Terminal.symbols.find? fun s => accepts s.2 && s.1.toList.isPrefixOf cs).map
    fun s => (s.2, s.1.length)

/-- The accepted terminal at the front of a text and the length of its lexeme. -/
def lexeme? (accepts : Terminal → Bool) (cs : List Char) : Option (Terminal × Nat) :=
  match cs with
  | [] => none
  | c :: rest =>
    if isNameStart c then
      let word := c :: rest.takeWhile isNamePart
      (wordTerminal? accepts word).map (·, word.length)
    else if isDecimal c then
      if accepts .number then some (.number, numberLength cs) else none
    else if c == '"' || c == '\'' then
      if accepts .string then (stringLength? c rest).map fun n => (.string, n + 1) else none
    else symbol? accepts cs

/-- Reads the token behind `context`. At the end of the text the token has the place of the token
before it, `last`. -/
def Cursor.next (context : Context) (last : Option Token) (cursor : Cursor) :
    Except ScanFault (Token × Cursor) :=
  let c := cursor.skipIgnored cursor.rest.length
  match c.rest with
  | [] => .ok (⟨.endOfText, [], (last.map (·.position)).getD ⟨1, 1⟩⟩, c)
  | ch :: _ =>
    match lexeme? context.accepts c.rest with
    | some (t, n) => .ok (⟨t, c.rest.take n, c.position⟩, c.advance n)
    | none =>
      match lexeme? (fun _ => true) c.rest with
      | some (t, n) => .error (.unexpectedToken ⟨t, c.rest.take n, c.position⟩)
      | none => .error (.unexpectedCharacter ch c.position)

end ArrowCircuit.Script
