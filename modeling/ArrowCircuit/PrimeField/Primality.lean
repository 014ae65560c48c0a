/-!
# Primality

The Miller–Rabin test with twelve fixed bases, which no prime fails and few composite numbers pass,
and the modular powers it computes.
-/

namespace ArrowCircuit

/-- Squares and multiplies along the binary digits of the exponent; `fuel` bounds their number. -/
def powModLoop (m : Nat) : (fuel base exponent acc : Nat) → Nat
  | 0, _, _, acc => acc
  | fuel + 1, base, exponent, acc =>
    if exponent = 0 then acc
    else
      let acc := if exponent % 2 = 1 then acc * base % m else acc
      powModLoop m fuel (base * base % m) (exponent / 2) acc

/-- The power `base ^ exponent` modulo `m`. -/
def powMod (base exponent m : Nat) : Nat :=
  powModLoop m (exponent.log2 + 1) (base % m) exponent (1 % m)

namespace Primality

/-- The bases of the test. -/
def bases : List Nat := [2, 3, 5, 7, 11, 13, 17, 19, 23, 29, 31, 37]

/-- Splits `d · 2 ^ s` into an odd number and the power of two; `fuel` bounds the power. -/
def oddPart : (fuel d s : Nat) → Nat × Nat
  | 0, d, s => (d, s)
  | fuel + 1, d, s => if d % 2 = 0 then oddPart fuel (d / 2) (s + 1) else (d, s)

/-- Whether one of the next `count` squares of `x` is `n - 1`. -/
def reachesMinusOne (n : Nat) : (count x : Nat) → Bool
  | 0, _ => false
  | count + 1, x =>
    let y := x * x % n
    y == n - 1 || reachesMinusOne n count y

/-- Whether `n` is a strong probable prime to the base `a`, where `n - 1 = d · 2 ^ s`. -/
def isStrongTo (n d s a : Nat) : Bool :=
  let x := powMod a d n
  x == 1 || x == n - 1 || reachesMinusOne n (s - 1) x

/-- The test: division by the bases first, then the strong test to each of them. -/
def test (n : Nat) : Bool :=
  if n < 2 then false
  else
    match bases.find? fun q => n % q == 0 with
    | some q => n == q
    | none =>
      let (d, s) := oddPart n.log2 (n - 1) 0
      bases.all (isStrongTo n d s)

end Primality

end ArrowCircuit
