import ArrowCircuit.Constraint.System
import ArrowCircuit.Witness.Bits

/-!
# Witness generation

The witness of a constraint system for given inputs: the constant one, the inputs as elements of the
field, and the results of the scheduled computations.

Tools that number the parameters from zero, private ones first, agree with the layout of the system
up to a shift by one, the place of the constant.
-/

namespace ArrowCircuit.Witness

/-- Why there is no witness. -/
inductive Fault where
  | privateCount (expected given : Nat)
  | publicCount (expected given : Nat)
  | input (fault : PrimeField.ParseFault)
  | layout (given expected : List Nat)
  | notComputed (index : Nat)
  /-- A subtraction or decomposition reads an index without a value. -/
  | absent (index : Nat)
  | divisionByZero (target : Nat)
  | inverse (fault : Element.Fault)
  | negativeDifference (difference : Int) (left : Nat) (leftValue : Int) (right : Nat)
      (rightValue offset : Int)
  | bits (fault : Bits.Fault)
  | unknownComputation (name : Text)
  | missing (index : Nat)
  deriving DecidableEq, Repr

/-- A list of numbers as it is shown in messages. -/
def listText (ns : List Nat) : String := "[" ++ ", ".intercalate (ns.map Numeral.decimalNat) ++ "]"

/-- The wording of a fault. -/
def Fault.message : Fault → String
  | .privateCount expected given =>
    "Expected " ++ Numeral.decimalNat expected ++ " private inputs, got " ++ Numeral.decimalNat given
  | .publicCount expected given =>
    "Expected " ++ Numeral.decimalNat expected ++ " public inputs, got " ++ Numeral.decimalNat given
  | .input f => "Invalid input value: " ++ f.message
  | .layout given expected =>
    "parameter witness indices " ++ listText given ++ " do not match circuit layout " ++
      listText expected
  | .notComputed i => "witness index " ++ Numeral.decimalNat i ++ " used before it was computed"
  | .absent i => Numeral.decimalNat i
  | .divisionByZero target => "division by zero computing witness " ++ Numeral.decimalNat target
  | .inverse f => f.message
  | .negativeDifference difference left leftValue right rightValue offset =>
    "comparison does not hold: negative difference " ++ Numeral.decimal difference ++ " (w" ++
      Numeral.decimalNat left ++ "=" ++ Numeral.decimal leftValue ++ ", w" ++
      Numeral.decimalNat right ++ "=" ++ Numeral.decimal rightValue ++ ", offset=" ++
      Numeral.decimal offset ++ ")"
  | .bits f => f.message
  | .unknownComputation name => "unknown witness computation " ++ Text.quoted name
  | .missing i => "Missing witness value for index " ++ Numeral.decimalNat i

/-- The outcome of generation. -/
abbrev Result := Except Fault

/-- The value of a form under what has been computed. -/
def evalForm (f : PrimeField) (w : Assignment) (terms : LinearForm) : Result Int :=
  (terms.eval f.modulus w).mapError .notComputed

/-- The value of one index. -/
def read (w : Assignment) (i : Nat) : Result Int :=
  match w.get? i with
  | some v => .ok v
  | none => .error (.absent i)

/-- Carries out one computation. -/
def apply (f : PrimeField) (w : Assignment) : Computation → Result Assignment
  | .linear target terms => do return w.set target (← evalForm f w terms)
  | .product target left right => do
    let left ← evalForm f w left
    let right ← evalForm f w right
    return w.set target (f.reduce (left * right))
  | .quotient target numerator denominator => do
    let d ← evalForm f w denominator
    if d = 0 then .error (.divisionByZero target)
    else
      let n ← evalForm f w numerator
      let i ← (f.inv d).mapError .inverse
      return w.set target (f.reduce (n * i))
  | .subtract target left right offset => do
    let l ← read w left
    let r ← read w right
    let d := l - r + offset
    if d < 0 then .error (.negativeDifference d left l right r offset)
    else return w.set target (f.reduce d)
  | .bits source targets count => do
    let v ← read w source
    let bits ← (Bits.decompose v count).mapError .bits
    return w.setAll targets bits
  | .unknown name => .error (.unknownComputation name)

/-- Carries out computations one after another. -/
def applyAll (f : PrimeField) : List Computation → Assignment → Result Assignment
  | [], w => .ok w
  | c :: rest, w => do
    let w ← apply f w c
    applyAll f rest w

/-- Reads supplied values as numbers of the field. -/
def parseAll (f : PrimeField) (values : List Value) : Result (List Int) :=
  values.mapM fun v => ((f.parse v).map (·.value)).mapError .input

/-- The values of the parameters as numbered from zero, private ones first. -/
def toolchainOrder {α : Type} (privateValues publicValues : List α) : List (Nat × α) :=
  (privateValues ++ publicValues).zipIdx.map fun (v, i) => (i, v)

/-- Shifts every index by the place of the constant. -/
def align {α : Type} (entries : List (Nat × α)) : List (Nat × α) :=
  entries.map fun (i, v) => (i + 1, v)

end ArrowCircuit.Witness

namespace ArrowCircuit

open Witness in
/-- The witness of a system for given inputs. -/
def ConstraintSystem.witness (s : ConstraintSystem) (f : PrimeField)
    (privateValues publicValues : List Value) : Result Assignment := do
  if privateValues.length ≠ s.privateInputs.length then
    .error (.privateCount s.privateInputs.length privateValues.length)
  else if publicValues.length ≠ s.publicInputs.length then
    .error (.publicCount s.publicInputs.length publicValues.length)
  else
    let privateValues ← parseAll f privateValues
    let publicValues ← parseAll f publicValues
    let inputs := align (toolchainOrder privateValues publicValues)
    let given := inputs.map (·.1)
    let expected := s.privateInputs ++ s.publicInputs
    if given ≠ expected.mergeSort (· ≤ ·) then .error (.layout given expected)
    else
      let w := Assignment.set ⟨inputs⟩ oneIndex 1
      let w ← applyAll f s.computations w
      match (List.range s.numWitnesses).find? fun i => (w.get? i).isNone with
      | some i => .error (.missing i)
      | none => return w

end ArrowCircuit
