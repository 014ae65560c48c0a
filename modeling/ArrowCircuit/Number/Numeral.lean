import ArrowCircuit.Text.Blank
import ArrowCircuit.Text.Digit
import ArrowCircuit.Text.Quoted

/-!
# Numerals

Integers are read from decimal and hexadecimal text and written back. A numeral may have blanks
around it, one sign, and single underscores between digits; a hexadecimal one may start with `0x`.
Decimal text is limited to `digitLimit` digits in both directions, hexadecimal text is not.
-/

namespace ArrowCircuit.Numeral

/-- The longest decimal text that is read or written. -/
def digitLimit : Nat := 4300

/-- Why a text is not read as an integer, or an integer not written. -/
inductive Fault where
  /-- The text is no numeral of the base. -/
  | invalid (base : Nat) (text : Text)
  /-- A decimal numeral with more digits than the limit. -/
  | tooLong (digits : Nat)
  /-- An integer whose decimal text is longer than the limit. -/
  | tooLarge
  deriving DecidableEq, Repr

/-- The wording of a fault. -/
def Fault.message : Fault → String
  | .invalid base text =>
    "invalid literal for int() with base " ++ toString base ++ ": " ++
      String.ofList ((Text.quoted text).toList.take 200)
  | .tooLong digits =>
    "Exceeds the limit (4300 digits) for integer string conversion: value has " ++
      toString digits ++ " digits; use sys.set_int_max_str_digits() to increase the limit"
  | .tooLarge =>
    "Exceeds the limit (4300 digits) for integer string conversion; " ++
      "use sys.set_int_max_str_digits() to increase the limit"

/-- The value of a digit of the base: a decimal digit of any script, or an ASCII letter. -/
def digitValue? (base c : Nat) : Option Nat :=
  match Text.decimalValue? c with
  | some d => if d < base then some d else none
  | none =>
    let d := if 0x61 ≤ c ∧ c ≤ 0x7a then c - 0x57
      else if 0x41 ≤ c ∧ c ≤ 0x5a then c - 0x37 else base
    if d < base then some d else none

/-- A run of digits: the number it denotes, how many digits it has, and what follows. -/
structure Run where
  value : Nat
  count : Nat
  rest : Text
  deriving DecidableEq, Repr

/-- Reads the longest run of digits and underscores. `gap` says that a digit has to come next; a run
that ends there, or has two underscores in a row, is refused. -/
def scan (base : Nat) : (value count : Nat) → (gap : Bool) → Text → Option Run
  | value, count, gap, [] => if gap then none else some ⟨value, count, []⟩
  | value, count, gap, c :: rest =>
    match digitValue? base c with
    | some d => scan base (value * base + d) (count + 1) false rest
    | none =>
      if gap then none
      else if c = 0x5f then scan base value count true rest
      else some ⟨value, count, c :: rest⟩

/-- Splits one sign off; `true` stands for minus. -/
def splitSign : Text → Bool × Text
  | c :: rest => if c = 0x2d then (true, rest) else if c = 0x2b then (false, rest) else (false, c :: rest)
  | [] => (false, [])

/-- Drops `0x` or `0X`, and an underscore behind it. -/
def dropHexMark : Text → Text
  | z :: x :: rest =>
    if Text.decimalValue? z = some 0 ∧ (x = 0x78 ∨ x = 0x58) then
      match rest with
      | c :: rest' => if c = 0x5f then rest' else c :: rest'
      | [] => []
    else z :: x :: rest
  | t => t

/-- Gives a magnitude its sign. -/
def signed (negative : Bool) (n : Nat) : Int := if negative then -(n : Int) else n

/-- Reads an integer in base 10 or 16. -/
def read (base : Nat) (t : Text) : Except Fault Int :=
  let (negative, s) := splitSign (t.dropWhile Text.isNumeralBlank)
  let s := if base = 16 then dropHexMark s else s
  match scan base 0 0 true s with
  | none => .error (.invalid base t)
  | some run =>
    if base = 10 ∧ digitLimit < run.count then .error (.tooLong run.count)
    else if run.rest.all Text.isNumeralBlank then .ok (signed negative run.value)
    else .error (.invalid base t)

/-- Reads an integer whose base is told by its mark: hexadecimal behind `0x`, decimal otherwise. -/
def readMarked (t : Text) : Except Fault Int :=
  read (if Text.startsWith t "0x" || Text.startsWith t "-0x" then 16 else 10) t

/-- The decimal digits of a natural number. -/
def decimalNat (n : Nat) : String := String.ofList (Nat.toDigits 10 n)

/-- The decimal text of an integer. -/
def decimal (z : Int) : String := (if z < 0 then "-" else "") ++ decimalNat z.natAbs

/-- The decimal text of an integer, refused beyond the digit limit. -/
def decimal? (z : Int) : Except Fault String :=
  if z.natAbs < Nat.pow 10 digitLimit then .ok (decimal z) else .error .tooLarge

/-- The hexadecimal digits of a natural number, in lower case. -/
def hexNat (n : Nat) : String := String.ofList (Nat.toDigits 16 n)

/-- The hexadecimal text of an integer, with its mark: `0x1f`, `-0x5`. -/
def hex (z : Int) : String := (if z < 0 then "-0x" else "0x") ++ hexNat z.natAbs

/-- The hexadecimal digits of `n`, filled with zeros on the left to `width`. -/
def hexPadded (width n : Nat) : String :=
  let digits := Nat.toDigits 16 n
  String.ofList (List.replicate (width - digits.length) '0' ++ digits)

end ArrowCircuit.Numeral
