import ArrowCircuit.Poly.Basic

/-!
# Evaluation domains

Polynomials on the domain `1, 2, …, n`: the one that vanishes there, the one with given values there,
and the values of the basis polynomials at a point outside.
-/

namespace ArrowCircuit.Poly

/-- The points of the domain. -/
def domain (n : Nat) : List Int := (List.range n).map fun (i : Nat) => Int.ofNat i + 1

/-- The product with `X - root`. -/
def mulLinear (root : Int) (p : Poly) : Poly := subScaled root (0 :: p) p

/-- The product of `X - j` over the points of the domain. -/
def vanishing (n : Nat) : Poly := (domain n).foldl (fun p j => mulLinear j p) [1]

/-- The factorials of `0, …, n - 1`, reduced; `k` is the next number and `f` its factorial. -/
def factorials : (n : Nat) → (k f : Int) → List Int
  | 0, _, _ => []
  | n + 1, k, f => f :: factorials n (k + 1) (reduce (f * (k + 1)))

/-- The value with its sign changed for odd distances. -/
def alternate (distance : Nat) (d : Int) : Int :=
  if distance % 2 = 1 then reduce (-d) else d

/-- For each point `j` of the domain, the product of `j - k` over the other points. -/
def denominators (n : Nat) : List Int :=
  let below := factorials n 0 1
  let products := List.zipWith (fun a b => reduce (a * b)) below below.reverse
  (List.zipWith alternate (List.range n).reverse products)

/-- The polynomial with the given values on the domain, of as many coefficients as there are values. -/
def interpolate (values : List Int) : Poly :=
  let n := values.length
  let z := vanishing n
  let parts := List.zipWith (fun y (j, d) => scale (reduce (y * inverse d)) (divLinear j z))
    values ((domain n).zip (denominators n))
  parts.foldl add (zeros n)

/-- The vanishing polynomial's value at a point. -/
def vanishingAt (n : Nat) (x : Int) : Int :=
  (domain n).foldl (fun z j => reduce (z * (x - j))) 1

/-- The values at `x` of the basis polynomials of the domain; there are none if `x` is in it. -/
def lagrange (n : Nat) (x : Int) : Except Element.Fault (List Int) :=
  let z := vanishingAt n x
  ((domain n).zip (denominators n)).mapM fun (j, d) =>
    let denominator := reduce ((x - j) * d)
    if denominator = 0 then .error .inverseOfZero else .ok (reduce (z * inverse denominator))

end ArrowCircuit.Poly
