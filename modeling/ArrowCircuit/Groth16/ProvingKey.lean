import ArrowCircuit.Curve.Suite

/-!
# Proving keys

A proving key has a header of counts and instance indices, five single points, and five lists of
points. Its byte format has no marks between them: the counts of the header say where each begins.
-/

namespace ArrowCircuit.Groth16

/-- A proving key. -/
structure ProvingKey (S : PairingSuite) where
  numWitnesses : Nat
  domainSize : Nat
  indices : List Nat
  alpha : S.g1.Point
  beta₁ : S.g1.Point
  beta₂ : S.g2.Point
  delta₁ : S.g1.Point
  delta₂ : S.g2.Point
  aQuery : List S.g1.Point
  b₁Query : List S.g1.Point
  b₂Query : List S.g2.Point
  hQuery : List S.g1.Point
  lQuery : List S.g1.Point

/-- Why bytes are not a proving key. -/
inductive KeyFault where
  | truncatedHeader
  | size (actual expected : Nat)
  | point (fault : PointFault)
  deriving DecidableEq, Repr

/-- The wording of a fault. -/
def KeyFault.message : KeyFault → String
  | .truncatedHeader => "truncated proving key header"
  | .size actual expected =>
    "proving key is " ++ toString actual ++ " bytes, expected " ++ toString expected
  | .point f => f.message

namespace ProvingKey

variable {S : PairingSuite}

/-- Whether the four bytes of every number of the header can hold it. -/
def headerFits (k : ProvingKey S) : Bool :=
  (k.numWitnesses :: k.domainSize :: k.indices.length :: k.indices).all (· < Nat.pow 2 32)

/-- The bytes of a key. -/
def encode (k : ProvingKey S) : Bytes :=
  Bytes.bigEndian 4 k.numWitnesses ++ Bytes.bigEndian 4 k.domainSize ++
    Bytes.bigEndian 4 k.indices.length ++ k.indices.flatMap (Bytes.bigEndian 4) ++
    S.g1.encode k.alpha ++ S.g1.encode k.beta₁ ++ S.g2.encode k.beta₂ ++ S.g1.encode k.delta₁ ++
    S.g2.encode k.delta₂ ++ S.g1.encodeList k.aQuery ++ S.g1.encodeList k.b₁Query ++
    S.g2.encodeList k.b₂Query ++ S.g1.encodeList k.hQuery ++ S.g1.encodeList k.lQuery

variable (S)

/-- The number of bytes behind the header of a key with `n` witnesses and a domain of `d` points. The
third list has a point less than the domain; an empty domain counts as one point less than none. -/
def bodySize (n d : Nat) : Nat :=
  3 * S.g1.size + 2 * S.g2.size + n * (2 * S.g1.size + S.g2.size) + d * S.g1.size +
    n * S.g1.size - S.g1.size

/-- The key in a byte string. -/
def decode (bs : Bytes) : Except KeyFault (ProvingKey S) := do
  let n := (bs.slice 0 4).toNat
  let d := (bs.slice 4 4).toNat
  let m := (bs.slice 8 4).toNat
  if bs.length < 12 ∨ bs.length < 12 + 4 * m then throw .truncatedHeader
  let indices := (List.range m).map fun i => (bs.slice (12 + 4 * i) 4).toNat
  let start := 12 + 4 * m
  let expected := start + bodySize S n d
  if bs.length ≠ expected then throw (.size bs.length expected)
  let s₁ := S.g1.size
  let s₂ := S.g2.size
  let point₁ (offset : Nat) := (S.g1.decode (bs.slice offset s₁)).mapError KeyFault.point
  let point₂ (offset : Nat) := (S.g2.decode (bs.slice offset s₂)).mapError KeyFault.point
  let list₁ (offset count : Nat) := (S.g1.decodeList bs offset count).mapError KeyFault.point
  let list₂ (offset count : Nat) := (S.g2.decodeList bs offset count).mapError KeyFault.point
  let alpha ← point₁ start
  let beta₁ ← point₁ (start + s₁)
  let beta₂ ← point₂ (start + 2 * s₁)
  let delta₁ ← point₁ (start + 2 * s₁ + s₂)
  let delta₂ ← point₂ (start + 3 * s₁ + s₂)
  let lists := start + 3 * s₁ + 2 * s₂
  let aQuery ← list₁ lists n
  let b₁Query ← list₁ (lists + n * s₁) n
  let b₂Query ← list₂ (lists + n * (2 * s₁)) n
  let rest := lists + n * (2 * s₁ + s₂)
  let hQuery ← list₁ rest (d - 1)
  let lQuery ← list₁ (rest + d * s₁ - s₁) n
  return ⟨n, d, indices, alpha, beta₁, beta₂, delta₁, delta₂, aQuery, b₁Query, b₂Query, hQuery, lQuery⟩

end ProvingKey

end ArrowCircuit.Groth16
