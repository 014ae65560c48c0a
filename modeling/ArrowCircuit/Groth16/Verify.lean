import ArrowCircuit.PrimeField.Basic
import ArrowCircuit.Wire.Proof
import ArrowCircuit.Wire.PublicInput

/-!
# Verification

A proof is accepted when the pairing of its first two points is the product of the pairings of the
key with itself, with the public inputs and with the third point. Bytes that have the right length
and hold no points are a proof that is rejected; a key that holds no points is a fault.
-/

namespace ArrowCircuit.Groth16

/-- Why a proof is neither accepted nor rejected. -/
inductive VerifyFault where
  | wire (fault : WireFault)
  | inputCount (expected actual : Nat)
  | input (fault : Wire.InputFault)
  deriving DecidableEq, Repr

/-- The wording of a fault. -/
def VerifyFault.message : VerifyFault → String
  | .wire f => f.message
  | .inputCount expected actual =>
    "verifying key expects " ++ toString expected ++ " public inputs, got " ++ toString actual
  | .input f => f.message

/-- Whether the pairing equation holds. -/
def accepts (S : PairingSuite) (k : VerifyingKey S) (p : Proof S) (inputs : List Int) : Bool :=
  let sum := S.g1.sum scalarModulus (k.inputs.drop 1) inputs
  let sum := S.g1.add (k.inputs.headD S.g1.zero) sum
  S.beq (S.pair p.b p.a)
    (S.mul (S.mul (S.pair k.beta k.alpha) (S.pair k.gamma sum)) (S.pair k.delta p.c))

/-- Whether the bytes of a proof verify under the bytes of a key for supplied public inputs. -/
def verify (S : PairingSuite) (key proof : Bytes) (inputs : List Value) : Except VerifyFault Bool := do
  let k ← (VerifyingKey.decode S key).mapError .wire
  if inputs.length + 1 ≠ k.inputs.length then
    throw (.inputCount (k.inputs.length - 1) inputs.length)
  match Proof.decode S proof with
  | .error (.point f) => if f.isInvalid then return false else throw (.wire (.point f))
  | .error f => throw (.wire f)
  | .ok p =>
    let values ← inputs.mapM fun v => (Wire.publicValue v).mapError VerifyFault.input
    if values.any fun z => z ≥ (scalarModulus : Int) then return false
    return accepts S k p values

end ArrowCircuit.Groth16
