import ArrowCircuit.Json.Basic

/-!
# Reading JSON

A recursive-descent reader over the code points of a text. Beyond the standard grammar it takes the
words `NaN`, `Infinity` and `-Infinity`. Escaped surrogates are joined to one code point when they
come as a pair and are kept when they stand alone.
-/

namespace ArrowCircuit.Json

/-- Why a text is not read. -/
inductive ReadFault where
  | malformed
  | numeral (fault : Numeral.Fault)
  deriving DecidableEq, Repr

/-- The result of reading a part of the text: a value and the text behind it. -/
abbrev Parsed (α : Type) := Except ReadFault (α × List Char)

/-- Drops the blanks that may stand between tokens. -/
def dropBlanks (cs : List Char) : List Char :=
  cs.dropWhile fun c => c == ' ' || c == '\t' || c == '\n' || c == '\r'

/-- The value of a hexadecimal digit. -/
def hexValue? (c : Char) : Option Nat :=
  let n := c.toNat
  if 0x30 ≤ n ∧ n ≤ 0x39 then some (n - 0x30)
  else if 0x61 ≤ n ∧ n ≤ 0x66 then some (n - 0x57)
  else if 0x41 ≤ n ∧ n ≤ 0x46 then some (n - 0x37)
  else none

/-- Reads the four digits of a `\u` escape. -/
def readUnit : List Char → Option (Nat × List Char)
  | a :: b :: c :: d :: rest => do
    let a ← hexValue? a
    let b ← hexValue? b
    let c ← hexValue? c
    let d ← hexValue? d
    some (((a * 16 + b) * 16 + c) * 16 + d, rest)
  | _ => none

/-- Joins a leading surrogate with an escaped trailing one that follows it. -/
def joinPair (unit : Nat) (rest : List Char) : Nat × List Char :=
  if 0xd800 ≤ unit ∧ unit ≤ 0xdbff then
    match rest with
    | '\\' :: 'u' :: more =>
      match readUnit more with
      | some (low, rest') =>
        if 0xdc00 ≤ low ∧ low ≤ 0xdfff then
          (0x10000 + (unit - 0xd800) * 0x400 + (low - 0xdc00), rest')
        else (unit, rest)
      | none => (unit, rest)
    | _ => (unit, rest)
  else (unit, rest)

/-- The code point of a one-letter escape. -/
def escapeLetter? : Char → Option Nat
  | '"' => some 0x22
  | '\\' => some 0x5c
  | '/' => some 0x2f
  | 'b' => some 0x8
  | 'f' => some 0xc
  | 'n' => some 0xa
  | 'r' => some 0xd
  | 't' => some 0x9
  | _ => none

/-- Reads a string behind its opening quote; `read` holds the code points so far, last first. -/
def readString : (fuel : Nat) → (read : Text) → List Char → Parsed Text
  | 0, _, _ => .error .malformed
  | fuel + 1, read, cs =>
    match cs with
    | [] => .error .malformed
    | '"' :: rest => .ok (read.reverse, rest)
    | '\\' :: 'u' :: rest =>
      match readUnit rest with
      | some (unit, rest) =>
        let (point, rest) := joinPair unit rest
        readString fuel (point :: read) rest
      | none => .error .malformed
    | '\\' :: c :: rest =>
      match escapeLetter? c with
      | some point => readString fuel (point :: read) rest
      | none => .error .malformed
    | c :: rest =>
      if c.toNat < 0x20 ∨ c = '\\' then .error .malformed
      else readString fuel (c.toNat :: read) rest

/-- Whether the character is an ASCII digit. -/
def isAsciiDigit (c : Char) : Bool := '0' ≤ c && c ≤ '9'

/-- The number written by ASCII digits. -/
def digitsValue (cs : List Char) : Nat := cs.foldl (fun n c => n * 10 + (c.toNat - 0x30)) 0

/-- Reads the digits of a whole part: a zero alone, or digits that start with another one. -/
def readWhole : List Char → Option (List Char × List Char)
  | '0' :: rest => some (['0'], rest)
  | c :: rest =>
    if isAsciiDigit c then
      some (c :: rest.takeWhile isAsciiDigit, rest.dropWhile isAsciiDigit)
    else none
  | [] => none

/-- Reads a fraction, if one follows. -/
def readFraction : List Char → Option (List Char × List Char)
  | '.' :: c :: rest =>
    if isAsciiDigit c then
      some (c :: rest.takeWhile isAsciiDigit, rest.dropWhile isAsciiDigit)
    else none
  | _ => none

/-- Reads an exponent, if one follows. -/
def readExponent : List Char → Option (Int × List Char)
  | e :: rest =>
    if e = 'e' ∨ e = 'E' then
      let (negative, rest) := match rest with
        | '-' :: r => (true, r)
        | '+' :: r => (false, r)
        | r => (false, r)
      let digits := rest.takeWhile isAsciiDigit
      if digits.isEmpty then none
      else some (Numeral.signed negative (digitsValue digits), rest.dropWhile isAsciiDigit)
    else none
  | [] => none

/-- Reads a number whose sign has been taken off. -/
def readNumber (negative : Bool) (cs : List Char) : Parsed Json :=
  match readWhole cs with
  | none => .error .malformed
  | some (whole, rest) =>
    match readFraction rest, readExponent ((readFraction rest).elim rest (·.2)) with
    | none, none =>
      if Numeral.digitLimit < whole.length then .error (.numeral (.tooLong whole.length))
      else .ok (.int (Numeral.signed negative (digitsValue whole)), rest)
    | some (fraction, rest), none =>
      .ok (.real (.ofDecimal negative (digitsValue (whole ++ fraction)) (-fraction.length)), rest)
    | none, some (e, rest) => .ok (.real (.ofDecimal negative (digitsValue whole) e), rest)
    | some (fraction, _), some (e, rest) =>
      .ok (.real (.ofDecimal negative (digitsValue (whole ++ fraction)) (e - fraction.length)), rest)

/-- Drops the characters of `word` from the front. -/
def dropWord (word : String) (cs : List Char) : Option (List Char) :=
  if word.toList.isPrefixOf cs then some (cs.drop word.length) else none

/-- The words that stand for values. -/
def words : List (String × Json) :=
  [("null", .null), ("true", .bool true), ("false", .bool false), ("NaN", .real .nan),
    ("Infinity", .real (.infinity false)), ("-Infinity", .real (.infinity true))]

mutual

/-- Reads one value; blanks may come first. -/
def readValue : (fuel : Nat) → List Char → Parsed Json
  | 0, _ => .error .malformed
  | fuel + 1, cs =>
    match dropBlanks cs with
    | '"' :: rest =>
      match readString (rest.length + 1) [] rest with
      | .ok (t, rest) => .ok (.text t, rest)
      | .error e => .error e
    | '[' :: rest =>
      match dropBlanks rest with
      | ']' :: rest => .ok (.array [], rest)
      | rest => readItems fuel [] rest
    | '{' :: rest =>
      match dropBlanks rest with
      | '}' :: rest => .ok (.object [], rest)
      | rest => readFields fuel [] rest
    | cs =>
      match words.findSome? fun w => (dropWord w.1 cs).map (w.2, ·) with
      | some r => .ok r
      | none =>
        match cs with
        | '-' :: rest => readNumber true rest
        | cs => readNumber false cs

/-- Reads the items of an array up to the closing bracket. -/
def readItems : (fuel : Nat) → (read : List Json) → List Char → Parsed Json
  | 0, _, _ => .error .malformed
  | fuel + 1, read, cs =>
    match readValue fuel cs with
    | .error e => .error e
    | .ok (v, rest) =>
      match dropBlanks rest with
      | ',' :: rest => readItems fuel (v :: read) rest
      | ']' :: rest => .ok (.array (v :: read).reverse, rest)
      | _ => .error .malformed

/-- Reads the fields of an object up to the closing brace. -/
def readFields : (fuel : Nat) → (read : List (String × Json)) → List Char → Parsed Json
  | 0, _, _ => .error .malformed
  | fuel + 1, read, cs =>
    match dropBlanks cs with
    | '"' :: rest =>
      match readString (rest.length + 1) [] rest with
      | .error e => .error e
      | .ok (name, rest) =>
        match dropBlanks rest with
        | ':' :: rest =>
          match readValue fuel rest with
          | .error e => .error e
          | .ok (v, rest) =>
            let read := insertField (Text.toStr name) v read
            match dropBlanks rest with
            | ',' :: rest => readFields fuel read rest
            | '}' :: rest => .ok (.object read, rest)
            | _ => .error .malformed
        | _ => .error .malformed
    | _ => .error .malformed

end

/-- Reads a whole text as one value. -/
def read (s : String) : Except ReadFault Json :=
  let cs := s.toList
  match readValue (2 * cs.length + 2) cs with
  | .error e => .error e
  | .ok (v, rest) => if (dropBlanks rest).isEmpty then .ok v else .error .malformed

end ArrowCircuit.Json
