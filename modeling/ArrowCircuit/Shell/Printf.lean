import ArrowCircuit.Bytes.Basic
import ArrowCircuit.Number.Numeral

/-!
# Formatted output

The formats of the shell's printing commands: escapes that name characters and bytes, and directives
that show the arguments, which are gone through again and again until they are used up.
-/

namespace ArrowCircuit.Shell

/-- The UTF-8 bytes of a text. -/
def bytesOf (t : Text) : Bytes := Bytes.ofString (Text.toStr t)

/-- The value of a run of digits below a base. -/
def digitValue? (base c : Nat) : Option Nat :=
  let v := if 0x30 ≤ c ∧ c ≤ 0x39 then c - 0x30
    else if 0x61 ≤ c ∧ c ≤ 0x66 then c - 0x57
    else if 0x41 ≤ c ∧ c ≤ 0x46 then c - 0x37
    else base
  if v < base then some v else none

/-- Reads at most `count` digits. -/
def readDigits (base : Nat) : (count value : Nat) → Text → Nat × Text
  | 0, value, rest => (value, rest)
  | _, value, [] => (value, [])
  | count + 1, value, c :: rest =>
    match digitValue? base c with
    | some d => readDigits base count (value * base + d) rest
    | none => (value, c :: rest)

/-- The byte of a one-letter escape. -/
def escapeByte? (c : Nat) : Option UInt8 :=
  match Char.ofNat c with
  | 'a' => some 7
  | 'b' => some 8
  | 'f' => some 12
  | 'n' => some 10
  | 'r' => some 13
  | 't' => some 9
  | 'v' => some 11
  | '\\' => some 0x5c
  | _ => none

/-- Which escapes are read: octal ones only after a zero, hexadecimal ones for bytes and characters, the
letter for the escape character, and the one that ends output. -/
structure Escapes where
  octalAfterZero : Bool := false
  hexadecimal : Bool := false
  escapeLetter : Bool := false
  ending : Bool := false
  deriving DecidableEq, Repr

/-- The escapes of plain echoes. -/
def Escapes.echoed : Escapes := { octalAfterZero := true, ending := true }

/-- The escapes in the formats of the shell. -/
def Escapes.ofShell : Escapes := { escapeLetter := true }

/-- The escapes in the formats of the command. -/
def Escapes.ofCommand : Escapes := { hexadecimal := true, escapeLetter := true, ending := true }

/-- The digits of an escape that names a character. -/
def characterWidth? (c : Nat) : Option Nat :=
  if c = 0x75 then some 4 else if c = 0x55 then some 8 else none

/-- The bytes of an escape, the text behind it, and whether output ends there. -/
def readEscape (e : Escapes) : Text → Bytes × Text × Bool
  | [] => ([0x5c], [], false)
  | c :: rest =>
    match escapeByte? c with
    | some b => ([b], rest, false)
    | none =>
      if e.ending && c == 0x63 then ([], [], true)
      else if e.escapeLetter && c == 0x65 then ([0x1b], rest, false)
      else if e.octalAfterZero && c == 0x30 then
        let (v, rest) := readDigits 8 3 0 rest
        ([UInt8.ofNat v], rest, false)
      else if !e.octalAfterZero && (digitValue? 8 c).isSome then
        let (v, rest) := readDigits 8 3 0 (c :: rest)
        ([UInt8.ofNat v], rest, false)
      else if e.hexadecimal && c == 0x78 then
        let (v, after) := readDigits 16 2 0 rest
        if after.length = rest.length then ([0x5c, 0x78], rest, false) else ([UInt8.ofNat v], after, false)
      else
        match characterWidth? c with
        | some width =>
          if e.hexadecimal then
            let (v, rest) := readDigits 16 width 0 rest
            (bytesOf [v], rest, false)
          else (0x5c :: bytesOf [c], rest, false)
        | none => (0x5c :: bytesOf [c], rest, false)

/-- The bytes of a text with escapes, and whether output ends in it. -/
def unescape (e : Escapes) : (fuel : Nat) → Text → Bytes × Bool
  | 0, _ => ([], false)
  | _, [] => ([], false)
  | fuel + 1, 0x5c :: rest =>
    let (bs, rest, stop) := readEscape e rest
    if stop then (bs, true)
    else
      let (more, stop) := unescape e fuel rest
      (bs ++ more, stop)
  | fuel + 1, c :: rest =>
    let (more, stop) := unescape e fuel rest
    (bytesOf [c] ++ more, stop)

/-- A directive of a format: its flags, width, precision and letter. -/
structure Directive where
  leftAligned : Bool := false
  zeroFilled : Bool := false
  width : Nat := 0
  precision : Option Nat := none
  letter : Nat
  deriving DecidableEq, Repr

/-- Reads a directive behind its percent sign. -/
def readDirective (t : Text) : Option (Directive × Text) :=
  let (flags, t) := t.span fun c => (Text.ofString "-+ #0").contains c
  let (width, t) := readDigits 10 9 0 t
  let (precision, t) := match t with
    | 0x2e :: rest =>
      let (p, rest) := readDigits 10 9 0 rest
      (some p, rest)
    | t => (none, t)
  match t with
  | c :: rest =>
    some ({ leftAligned := flags.contains 0x2d, zeroFilled := flags.contains 0x30, width, precision,
            letter := c }, rest)
  | [] => none

/-- Fills bytes up to the width of a directive. -/
def pad (d : Directive) (isNumber : Bool) (bs : Bytes) : Bytes :=
  let missing := d.width - bs.length
  if d.leftAligned then bs ++ List.replicate missing 0x20
  else if d.zeroFilled && isNumber then
    match bs with
    | 0x2d :: rest => 0x2d :: (List.replicate missing 0x30 ++ rest)
    | bs => List.replicate missing 0x30 ++ bs
  else List.replicate missing 0x20 ++ bs

/-- The integer of an argument, and whether it is one. -/
def argumentInt (t : Text) : Int × Bool :=
  if t.isEmpty then (0, true)
  else if t.headD 0 = 0x27 ∨ t.headD 0 = 0x22 then ((t.getD 1 0 : Nat), true)
  else
    let read := if Text.startsWith t "0x" then Numeral.read 16 t else Numeral.read 10 t
    match read with
    | .ok z => (z, true)
    | .error _ => (0, false)

/-- An integer in a base. -/
def inBase (base : Nat) (upper : Bool) (z : Int) : String :=
  let digits := Nat.toDigits base (if z < 0 then (z + (Nat.pow 2 64 : Nat)).toNat else z.toNat)
  String.ofList (if upper then digits.map Char.toUpper else digits)

/-- The outcome of a format: what is printed, the arguments that are no numbers, what is left of the
arguments, and whether output has ended. -/
structure Printed where
  output : Bytes := []
  notNumbers : List Text := []
  arguments : List Text
  stopped : Bool := false

/-- The bytes of an argument under a directive, whether it was a number where one is needed, and whether
output ends in it. -/
def formatArgument (d : Directive) (arg : Text) : Bytes × Bool × Bool :=
  let number (s : Int → String) :=
    let (z, isNumber) := argumentInt arg
    (pad d true (Bytes.ofString (s z)), isNumber, false)
  match Char.ofNat d.letter with
  | 'd' | 'i' => number Numeral.decimal
  | 'u' => number (inBase 10 false)
  | 'o' => number (inBase 8 false)
  | 'x' => number (inBase 16 false)
  | 'X' => number (inBase 16 true)
  | 'c' => (pad d false (bytesOf (arg.take 1)), true, false)
  | 'b' =>
    let (bs, stop) := unescape .echoed (arg.length + 1) arg
    (pad d false bs, true, stop)
  | _ =>
    let bs := bytesOf arg
    (pad d false ((d.precision.map bs.take).getD bs), true, false)

/-- Goes through a format once. -/
def format (e : Escapes) : (fuel : Nat) → Text → Printed → Printed
  | 0, _, p => p
  | _, [], p => p
  | fuel + 1, 0x5c :: rest, p =>
    let (bs, rest, stop) := readEscape e rest
    let p := { p with output := p.output ++ bs, stopped := stop }
    if stop then p else format e fuel rest p
  | fuel + 1, 0x25 :: 0x25 :: rest, p => format e fuel rest { p with output := p.output ++ [0x25] }
  | fuel + 1, 0x25 :: rest, p =>
    match readDirective rest with
    | none => { p with output := p.output ++ [0x25] }
    | some (d, rest) =>
      let arg := p.arguments.headD []
      let (bs, isNumber, stop) := formatArgument d arg
      let p := { output := p.output ++ bs, arguments := p.arguments.drop 1, stopped := stop,
                 notNumbers := if isNumber then p.notNumbers else p.notNumbers ++ [arg] }
      if stop then p else format e fuel rest p
  | fuel + 1, c :: rest, p => format e fuel rest { p with output := p.output ++ bytesOf [c] }

/-- Goes through a format until the arguments are used up or none of them is used. -/
def formatAll (e : Escapes) (template : Text) : (fuel : Nat) → Printed → Printed
  | 0, p => p
  | fuel + 1, p =>
    let before := p.arguments.length
    let p := format e (template.length + 1) template p
    if p.stopped || p.arguments.isEmpty || p.arguments.length == before then p
    else formatAll e template fuel p

/-- The arguments behind a mark that no switches follow. -/
def behindMark : List Text → List Text
  | [0x2d, 0x2d] :: rest => rest
  | arguments => arguments

/-- What a format prints for arguments. -/
def printf (e : Escapes) (template : Text) (arguments : List Text) : Printed :=
  formatAll e template (arguments.length + 1) { arguments }

end ArrowCircuit.Shell
