import ArrowCircuit.Constraint.Qap
import ArrowCircuit.Groth16.ProvingKey
import ArrowCircuit.Poly.Domain
import ArrowCircuit.PrimeField.Random
import ArrowCircuit.Wire.Proof

/-!
# Trusted setup

The keys of a constraint system from a trapdoor: five secret numbers of the scalar field, of which
the first lies outside the evaluation domain.
-/

namespace ArrowCircuit.Groth16

/-- The secrets of a setup. -/
structure Trapdoor where
  tau : Nat
  alpha : Nat
  beta : Nat
  gamma : Nat
  delta : Nat
  deriving DecidableEq, Repr

namespace Trapdoor

/-- A nonzero number of the scalar field outside the domain, drawn again until there is one; `fuel`
bounds the draws. -/
def drawOutside (size : Nat) : (fuel : Nat) → Entropy → Option (Nat × Entropy)
  | 0, _ => none
  | fuel + 1, e =>
    let (tau, e) := PrimeField.scalar.randomNonzero e
    if 1 ≤ tau ∧ tau ≤ size then drawOutside size fuel e else some (tau, e)

/-- The secrets from a source of randomness. There are none when no draw of a whole period of the
source lies outside the domain. -/
def draw (size : Nat) (e : Entropy) : Option (Trapdoor × Entropy) := do
  let (tau, e) ← drawOutside size e.period e
  let (alpha, e) := PrimeField.scalar.randomNonzero e
  let (beta, e) := PrimeField.scalar.randomNonzero e
  let (gamma, e) := PrimeField.scalar.randomNonzero e
  let (delta, e) := PrimeField.scalar.randomNonzero e
  return (⟨tau, alpha, beta, gamma, delta⟩, e)

end Trapdoor

/-- The keys of a setup, as bytes. -/
structure KeyPair where
  provingKey : Bytes
  verifyingKey : Bytes
  deriving DecidableEq, Repr

/-- Why there are no keys. -/
inductive SetupFault where
  | rows (fault : CheckFault)
  | basis (fault : Element.Fault)
  /-- The source of randomness has no draw outside the domain. -/
  | exhausted
  /-- A number of the proving key's header has more than four bytes. -/
  | header
  deriving DecidableEq, Repr

/-- The sums of the columns of a matrix of `n` columns, each row weighted. -/
def columnSums (n : Nat) (rows : List (List Int)) (weights : List Int) : List Int :=
  (rows.zip weights).foldl (fun acc (row, k) => List.zipWith (fun x y => Poly.reduce (x + k * y)) acc row)
    (List.replicate n 0)

/-- The powers of a number, from the zeroth on. -/
def powers (x : Int) : (count : Nat) → (power : Int) → List Int
  | 0, _ => []
  | count + 1, power => power :: powers x count (Poly.reduce (power * x))

/-- The proving and the verifying key of a system from a trapdoor. -/
def keys (S : PairingSuite) (s : ConstraintSystem) (q : Qap) (t : Trapdoor) :
    Except Element.Fault (ProvingKey S × VerifyingKey S) := do
  let size := q.size
  let n := s.numWitnesses
  let basis ← Poly.lagrange size t.tau
  let u := columnSums n q.a basis
  let v := columnSums n q.b basis
  let w := columnSums n q.c basis
  let z := Poly.vanishingAt size t.tau
  let k := List.zipWith (fun u (v, w) => Poly.reduce (t.beta * u + t.alpha * v + w)) u (v.zip w)
  let gammaInverse := Poly.inverse t.gamma
  let deltaInverse := Poly.inverse t.delta
  let indices := s.instanceIndices
  let g1 := S.g1.ofScalar scalarModulus
  let g2 := S.g2.ofScalar scalarModulus
  let provingKey : ProvingKey S := {
    numWitnesses := n
    domainSize := size
    indices
    alpha := g1 t.alpha
    beta₁ := g1 t.beta
    beta₂ := g2 t.beta
    delta₁ := g1 t.delta
    delta₂ := g2 t.delta
    aQuery := u.map g1
    b₁Query := v.map g1
    b₂Query := v.map g2
    hQuery := (powers t.tau (size - 1) 1).map fun x => g1 (x * z * deltaInverse)
    lQuery := k.zipIdx.map fun (x, i) =>
      if indices.contains i then S.g1.zero else g1 (x * deltaInverse) }
  let verifyingKey : VerifyingKey S := {
    alpha := g1 t.alpha
    beta := g2 t.beta
    gamma := g2 t.gamma
    delta := g2 t.delta
    inputs := indices.map fun i => g1 (k.getD i 0 * gammaInverse) }
  return (provingKey, verifyingKey)

/-- The keys of a system from a trapdoor, as bytes; the header of the proving key must have room for
their numbers. -/
def setupWith (S : PairingSuite) (s : ConstraintSystem) (t : Trapdoor) : Except SetupFault KeyPair := do
  let q ← s.qap.mapError .rows
  let (provingKey, verifyingKey) ← (keys S s q t).mapError .basis
  if !provingKey.headerFits then throw .header
  return ⟨provingKey.encode, verifyingKey.encode⟩

/-- The keys of a system from drawn secrets. -/
def setup (S : PairingSuite) (s : ConstraintSystem) (e : Entropy) :
    Except SetupFault (KeyPair × Entropy) := do
  let q ← s.qap.mapError .rows
  match Trapdoor.draw q.size e with
  | none => throw .exhausted
  | some (t, e) => return (← setupWith S s t, e)

end ArrowCircuit.Groth16
