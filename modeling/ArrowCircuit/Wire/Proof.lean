import ArrowCircuit.Curve.Suite

/-!
# Proofs and verifying keys on the wire

A proof is three points, a verifying key four points and then one point for each index of the
instance. Both are the bytes of their points one after the other.
-/

namespace ArrowCircuit

/-- A proof. -/
structure Proof (S : PairingSuite) where
  a : S.g1.Point
  b : S.g2.Point
  c : S.g1.Point

/-- A verifying key. -/
structure VerifyingKey (S : PairingSuite) where
  alpha : S.g1.Point
  beta : S.g2.Point
  gamma : S.g2.Point
  delta : S.g2.Point
  /-- A point for the constant one, then one for each public input. -/
  inputs : List S.g1.Point

/-- Why bytes are not a proof or a verifying key. -/
inductive WireFault where
  | proofSize (expected actual : Nat)
  | keySize (actual : Nat)
  | point (fault : PointFault)
  deriving DecidableEq, Repr

/-- The wording of a fault. -/
def WireFault.message : WireFault → String
  | .proofSize expected actual =>
    "Invalid proof size: expected " ++ toString expected ++ " bytes, got " ++ toString actual
  | .keySize actual => "Invalid verifying key size: " ++ toString actual ++ " bytes"
  | .point f => f.message

namespace Proof

variable (S : PairingSuite)

/-- The number of bytes of a proof. -/
def size : Nat := S.g1.size + S.g2.size + S.g1.size

variable {S}

/-- The bytes of a proof. -/
def encode (p : Proof S) : Bytes := S.g1.encode p.a ++ S.g2.encode p.b ++ S.g1.encode p.c

variable (S)

/-- The proof in a byte string. -/
def decode (bs : Bytes) : Except WireFault (Proof S) := do
  if bs.length ≠ size S then throw (.proofSize (size S) bs.length)
  let a ← (S.g1.decode (bs.slice 0 S.g1.size)).mapError .point
  let b ← (S.g2.decode (bs.slice S.g1.size S.g2.size)).mapError .point
  let c ← (S.g1.decode (bs.drop (S.g1.size + S.g2.size))).mapError .point
  return ⟨a, b, c⟩

end Proof

namespace VerifyingKey

variable (S : PairingSuite)

/-- The number of bytes before the points of the instance. -/
def headerSize : Nat := S.g1.size + 3 * S.g2.size

/-- The number of bytes of a key for `n` public inputs. -/
def size (n : Int) : Int := headerSize S + (n + 1) * S.g1.size

variable {S}

/-- The bytes of a key. -/
def encode (k : VerifyingKey S) : Bytes :=
  S.g1.encode k.alpha ++ S.g2.encode k.beta ++ S.g2.encode k.gamma ++ S.g2.encode k.delta ++
    S.g1.encodeList k.inputs

variable (S)

/-- The number of public inputs that a key of the given bytes is for. -/
def inputCount (bs : Bytes) : Except WireFault Nat :=
  let rest := bs.length - headerSize S
  if rest < S.g1.size ∨ rest % S.g1.size ≠ 0 then .error (.keySize bs.length)
  else .ok (rest / S.g1.size - 1)

/-- The key in a byte string. -/
def decode (bs : Bytes) : Except WireFault (VerifyingKey S) := do
  let n ← inputCount S bs
  let twist (i : Nat) :=
    (S.g2.decode (bs.slice (S.g1.size + i * S.g2.size) S.g2.size)).mapError WireFault.point
  let alpha ← (S.g1.decode (bs.slice 0 S.g1.size)).mapError .point
  let beta ← twist 0
  let gamma ← twist 1
  let delta ← twist 2
  let inputs ← (S.g1.decodeList bs (headerSize S) (n + 1)).mapError .point
  return ⟨alpha, beta, gamma, delta, inputs⟩

end VerifyingKey

end ArrowCircuit
