import ArrowCircuit.Groth16.Setup
import ArrowCircuit.Wire.PublicInput

/-!
# Proving

A proof for a witness: the values of the constraints on the domain are interpolated, the quotient by
the vanishing polynomial is computed, and both are carried into the groups by the proving key and
blinded by two random numbers. A witness that violates a constraint leaves a remainder, which is
dropped, so that the proof does not verify.
-/

namespace ArrowCircuit.Groth16

/-- Why there is no proof. -/
inductive ProveFault where
  | key (fault : KeyFault)
  | keyMismatch
  | domainMismatch
  | missing (index : Nat)
  | rows (fault : CheckFault)
  | input (fault : Wire.InputFault)
  deriving DecidableEq, Repr

/-- The wording of a fault. -/
def ProveFault.message : ProveFault → String
  | .key f => f.message
  | .keyMismatch => "proving key does not match the constraint system"
  | .domainMismatch => "proving key domain does not match the constraint system"
  | .missing i => "witness is missing index " ++ toString i
  | .rows _ => "term index beyond the witness"
  | .input f => f.message

/-- A proof with its public inputs, as the prover hands them over. -/
structure ProofData where
  proof : Bytes
  publicInputs : List Value
  deriving Repr

/-- The quotient and the remainder of `a * b - c` by the vanishing polynomial, where `a`, `b` and `c`
interpolate the sides of the constraints at a witness. -/
def quotient (q : Qap) (w : List Int) : Poly × Poly :=
  let side (rows : List (List Int)) := Poly.interpolate (rows.map fun r => Poly.reduce (dot r w))
  let product := Poly.mul (side q.a) (side q.b)
  (Poly.divMod? (Poly.subScaled 1 product (side q.c)) (Poly.vanishing q.size)).getD ([], [])

/-- The coefficients of the quotient that the key has points for. -/
def quotientCoefficients (size : Nat) (h : Poly) : Poly := (h ++ Poly.zeros size).take (size - 1)

/-- The proof for the reduced values `w` of a witness, blinded by `r` and `s`. -/
def proofPoints (S : PairingSuite) (k : ProvingKey S) (w : List Int) (h : Poly) (r s : Nat) : Proof S :=
  let g := S.g1
  let sum₁ := g.sum scalarModulus
  let sum₂ := S.g2.sum scalarModulus
  let scale₁ (n : Nat) (p : g.Point) := if n = 0 then g.zero else g.scale n p
  let scale₂ (n : Nat) (p : S.g2.Point) := if n = 0 then S.g2.zero else S.g2.scale n p
  let a := g.add (g.add k.alpha (sum₁ k.aQuery w)) (scale₁ r k.delta₁)
  let b := S.g2.add (S.g2.add k.beta₂ (sum₂ k.b₂Query w)) (scale₂ s k.delta₂)
  let b₁ := g.add (g.add k.beta₁ (sum₁ k.b₁Query w)) (scale₁ s k.delta₁)
  let secret := w.zipIdx.map fun (x, i) => if k.indices.contains i then 0 else x
  let c := g.add (sum₁ k.lQuery secret) (sum₁ k.hQuery h)
  let c := g.add c (sum₁ [a, b₁] [s, r])
  let rs := r * s % scalarModulus
  let c := if rs = 0 then c else g.add c (g.neg (g.scale rs k.delta₁))
  ⟨a, b, c⟩

/-- The values of a witness in the scalar field. -/
def witnessValues (s : ConstraintSystem) (w : Assignment) : Except ProveFault (List Int) :=
  (List.range s.numWitnesses).mapM fun i =>
    match w.get? i with
    | some v => .ok (Poly.reduce v)
    | none => .error (.missing i)

/-- The proof for a witness of a system under the bytes of a proving key, blinded by `r` and `t`, with
the values of the public inputs. -/
def proveWith (S : PairingSuite) (key : Bytes) (s : ConstraintSystem) (w : Assignment) (r t : Nat) :
    Except ProveFault ProofData := do
  let k ← (ProvingKey.decode S key).mapError .key
  if k.numWitnesses ≠ s.numWitnesses ∨ k.indices ≠ s.instanceIndices then throw .keyMismatch
  let q ← s.qap.mapError .rows
  if q.size ≠ k.domainSize then throw .domainMismatch
  let values ← witnessValues s w
  let h := quotientCoefficients q.size (quotient q values).1
  let inputs ← s.publicInputs.mapM fun i => do
    return Value.str (← (Wire.hexText (values.getD i 0)).mapError .input)
  return ⟨(proofPoints S k values h r t).encode, inputs⟩

/-- The proof for a witness, blinded by drawn numbers; a failed attempt draws none. -/
def prove (S : PairingSuite) (key : Bytes) (s : ConstraintSystem) (w : Assignment) (e : Entropy) :
    Except ProveFault (ProofData × Entropy) := do
  let (r, e) := PrimeField.scalar.random e
  let (t, e) := PrimeField.scalar.random e
  return (← proveWith S key s w r t, e)

end ArrowCircuit.Groth16
