import ArrowCircuit.Bytes.Basic
import ArrowCircuit.Value.Basic

/-!
# Public inputs on the wire

A public input is 32 bytes, the highest first. It is supplied as an integer or as text; the byte
formats read text as hexadecimal, the verifier reads it as decimal unless it begins with `0x`. A
public witness is a header of three counts and then the inputs.
-/

namespace ArrowCircuit.Wire

/-- Why a value has no place in the byte formats. -/
inductive InputFault where
  | tooWide
  | wordSize (actual : Nat)
  | wideText (text : Text)
  | notHex (text : Text)
  | numeral (fault : Numeral.Fault)
  | witnessTooShort (actual : Nat)
  | witnessHeader (publicCount secretCount length : Nat)
  | witnessBody (actual count : Nat)
  deriving DecidableEq, Repr

/-- The wording of a fault. -/
def InputFault.message : InputFault → String
  | .tooWide => "value does not fit in 32 bytes"
  | .wordSize actual => "expected 32 bytes, got " ++ toString actual
  | .wideText t => "public input wider than 32 bytes: " ++ Text.toStr t
  | .notHex t => "public input is not hex: " ++ Text.toStr t
  | .numeral f => f.message
  | .witnessTooShort actual => "public witness too short: " ++ toString actual ++ " bytes"
  | .witnessHeader p s l =>
    "unexpected public witness header: public=" ++ toString p ++ " secret=" ++ toString s ++
      " length=" ++ toString l
  | .witnessBody actual count =>
    "public witness holds " ++ toString actual ++ " bytes, expected " ++ toString (count * 32) ++
      " for " ++ toString count ++ " inputs"

/-- The 32 bytes of an integer. -/
def word (z : Int) : Except InputFault Bytes :=
  if z < 0 ∨ z ≥ (Nat.pow 2 256 : Nat) then .error .tooWide else .ok (Bytes.bigEndian 32 z.toNat)

/-- The integer of 32 bytes. -/
def wordValue (bs : Bytes) : Except InputFault Nat :=
  if bs.length = 32 then .ok bs.toNat else .error (.wordSize bs.length)

/-- An integer as `0x` and 64 hexadecimal digits. -/
def hexText (z : Int) : Except InputFault String := do return "0x" ++ (← word z).hex

/-- Whether a text begins with the mark of hexadecimal numerals. -/
def hasHexMark (t : Text) : Bool := Text.asciiLower (t.take 2) = Text.ofString "0x"

/-- The integer of a hexadecimal text, with or without its mark; nothing stands for zero. -/
def hexValue (t : Text) : Except InputFault Int :=
  let body := if hasHexMark t then t.drop 2 else t
  if body.length > 64 then .error (.wideText t)
  else
    match Numeral.read 16 (if body.isEmpty then Text.ofString "0" else body) with
    | .ok z => .ok z
    | .error _ => .error (.notHex t)

/-- The integer that the byte formats take a supplied value for. -/
def inputValue : Value → Except InputFault Int
  | .int z => .ok z
  | .bool b => .ok (if b then 1 else 0)
  | v => do hexValue (← v.display.mapError .numeral)

/-- The integer that the verifier takes a supplied value for. -/
def publicValue : Value → Except InputFault Int
  | .int z => .ok z
  | .bool b => .ok (if b then 1 else 0)
  | v => do
    let t := Text.strip (← v.display.mapError .numeral)
    if hasHexMark t then hexValue t else (Numeral.read 10 t).mapError .numeral

/-- The bytes of supplied values one after the other. -/
def inputBytes (values : List Value) : Except InputFault Bytes := do
  return (← values.mapM fun v => do word (← inputValue v)).flatten

/-- The texts of the 32-byte words of a byte string; a shorter end is left out. -/
def inputTexts (bs : Bytes) : List String :=
  (List.range (bs.length / 32)).map fun i => "0x" ++ (bs.slice (i * 32) 32).hex

/-- The public witness of supplied values. -/
def encodeWitness (values : List Value) : Except InputFault Bytes := do
  let body ← inputBytes values
  let n := body.length / 32
  return Bytes.bigEndian 4 n ++ Bytes.bigEndian 4 0 ++ Bytes.bigEndian 4 n ++ body

/-- The texts of the inputs of a public witness. -/
def decodeWitness (bs : Bytes) : Except InputFault (List String) :=
  if bs.length < 12 then .error (.witnessTooShort bs.length)
  else
    let count := (bs.slice 0 4).toNat
    let secret := (bs.slice 4 4).toNat
    let length := (bs.slice 8 4).toNat
    let body := bs.drop 12
    if secret ≠ 0 ∨ length ≠ count then .error (.witnessHeader count secret length)
    else if body.length ≠ count * 32 then .error (.witnessBody body.length count)
    else .ok (inputTexts body)

end ArrowCircuit.Wire
