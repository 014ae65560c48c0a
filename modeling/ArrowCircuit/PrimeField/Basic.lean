import ArrowCircuit.PrimeField.Primality
import ArrowCircuit.Value.Basic

/-!
# Prime fields

A field is given by its modulus, which has passed the primality test. Everything that enters a
witness or a constraint is read by `PrimeField.parse` or reduced by `PrimeField.reduce`, so that it is the
representative between zero and the modulus.
-/

namespace ArrowCircuit

/-- The order of the scalar field of the curve BN254. -/
def scalarModulus : Nat := 0x30644E72E131A029B85045B68181585D2833E84879B9709143E1F593F0000001

/-- A field of residues. -/
structure PrimeField where
  modulus : Nat
  deriving DecidableEq, Repr, Inhabited

namespace PrimeField

/-- The scalar field of the curve. -/
def scalar : PrimeField := ⟨scalarModulus⟩

/-- The field of a modulus that passes the primality test. -/
def ofModulus? (p : Int) : Option PrimeField :=
  if 0 ≤ p ∧ Primality.test p.toNat then some ⟨p.toNat⟩ else none

/-- What is said of a modulus that fails the test. -/
def compositeMessage : String := "p must be prime for a proper field"

/-- The representative of an integer. -/
def reduce (f : PrimeField) (z : Int) : Int := z % (f.modulus : Int)

theorem reduce_fmod (f : PrimeField) (z : Int) : (f.reduce z).fmod f.modulus = f.reduce z := by
  rw [Int.fmod_eq_emod_of_nonneg _ (Int.natCast_nonneg _), reduce, Int.emod_emod]

/-- The element of an integer. -/
def element (f : PrimeField) (z : Int) : Element := ⟨f.reduce z, f.modulus, f.reduce_fmod z⟩

/-- The inverse of an integer that is not zero in the field. -/
def inv (f : PrimeField) (z : Int) : Except Element.Fault Int := do
  return (← (f.element z).inv).value

/-- Why a value is not read as an element. -/
inductive ParseFault where
  | otherField
  | notNumeral (text : Text)
  | numeral (fault : Numeral.Fault)
  | notConvertible (typeName : String)
  deriving DecidableEq, Repr

/-- The wording of a fault. -/
def ParseFault.message : ParseFault → String
  | .otherField => "field element from a different field"
  | .notNumeral t => "not a field element: " ++ Text.quoted t
  | .numeral f => f.message
  | .notConvertible name => "cannot convert " ++ name ++ " to a field element"

/-- The integer of a text: decimal digits or a hexadecimal numeral, with a minus sign before it, a
mark of a big integer behind it, and blanks around it. -/
def parseText (t : Text) : Except ParseFault Int :=
  let s := Text.strip t
  let s := if Text.endsWith s "n" then s.dropLast else s
  let negative := Text.startsWith s "-"
  let s := if negative then s.drop 1 else s
  let read : Except ParseFault Int :=
    if Text.asciiLower (s.take 2) = Text.ofString "0x" then
      (Numeral.read 16 (s.drop 2)).mapError .numeral
    else if !s.isEmpty && s.all Text.isDigit then (Numeral.read 10 s).mapError .numeral
    else .error (.notNumeral t)
  read.map fun z => if negative then -z else z

/-- Reads a supplied value as an element. -/
def parse (f : PrimeField) : Value → Except ParseFault Element
  | .element e => if e.modulus = f.modulus then .ok e else .error .otherField
  | .bool b => .ok (f.element (if b then 1 else 0))
  | .int z => .ok (f.element z)
  | .text t => (parseText t).map f.element
  | v => .error (.notConvertible v.typeName)

end PrimeField

end ArrowCircuit
