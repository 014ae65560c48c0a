import ArrowCircuit.PrimeField.Basic

/-!
# Polynomials

Polynomials over the scalar field as lists of coefficients, the lowest first. Lists are not trimmed:
their lengths are part of the results. Coefficients that come in may be any integers; those that go
out are reduced.
-/

namespace ArrowCircuit

/-- The coefficients of a polynomial, the lowest first. -/
abbrev Poly := List Int

namespace Poly

/-- The representative of an integer in the scalar field. -/
def reduce (z : Int) : Int := z % (scalarModulus : Int)

/-- The inverse of an integer in the scalar field; zero for zero. -/
def inverse (z : Int) : Int :=
  let low := reduce z
  if low = 0 then 0 else reduce (Element.euclid low.toNat 1 0 low scalarModulus)

/-- The zero polynomial of a length. -/
def zeros (n : Nat) : Poly := List.replicate n 0

/-- The sum, as long as the longer of the two. -/
def add : Poly → Poly → Poly
  | [], q => q.map reduce
  | p, [] => p.map reduce
  | x :: p, y :: q => reduce (x + y) :: add p q

/-- The first polynomial less a multiple of the second, as long as the first. -/
def subScaled (k : Int) : Poly → Poly → Poly
  | [], _ => []
  | p, [] => p.map reduce
  | x :: p, y :: q => reduce (x - k * y) :: subScaled k p q

/-- The multiple by a number. -/
def scale (k : Int) (p : Poly) : Poly := p.map fun x => reduce (k * x)

/-- The product with a factor that has a coefficient. -/
def mulLoop (q : Poly) : Poly → Poly
  | [] => zeros (q.length - 1)
  | x :: p => add (scale x q) (0 :: mulLoop q p)

/-- The product; it has one coefficient less than the factors together. -/
def mul (p q : Poly) : Poly :=
  if q.isEmpty then zeros (p.length - 1) else mulLoop q p

/-- The value at a point. -/
def eval (p : Poly) (x : Int) : Int := p.foldr (fun c v => reduce (c + x * v)) 0

/-- The values of the ends of a polynomial at a point: of all its coefficients, of all but the
lowest, and so on. -/
def tailValues (x : Int) : Poly → Poly
  | [] => []
  | c :: p =>
    let rest := tailValues x p
    reduce (c + rest.headD 0 * x) :: rest

/-- The quotient by `X - root`, the remainder being dropped. -/
def divLinear (root : Int) : Poly → Poly
  | [] => []
  | _ :: p => tailValues root p

/-- Long division from the highest coefficient down by a divisor of length `degree + 1` that ends in
one: the remainder of the higher coefficients, put behind the next lower one, is as long as the
divisor or shorter, and in the first case its last coefficient is the next of the quotient. -/
def divLoop (degree : Nat) (divisor : Poly) : Poly → Poly × Poly
  | [] => ([], [])
  | c :: p =>
    let (quotient, rest) := divLoop degree divisor p
    let window := reduce c :: rest
    if window.length ≤ degree then (quotient, window)
    else
      let top := window.getLastD 0
      (top :: quotient, subScaled top (window.take degree) divisor)

/-- Quotient and remainder by a divisor that ends in one. A dividend that is shorter than the divisor
has the quotient zero. A divisor without coefficients leaves the dividend as it is, behind a copy of its
last coefficient, and there is no result if the dividend has none either. -/
def divMod? (p divisor : Poly) : Option (Poly × Poly) :=
  match divisor with
  | [] => p.getLast?.map fun top => (reduce top :: p.map reduce, p.dropLast.map reduce)
  | _ :: tail =>
    if p.length ≤ tail.length then some ([0], p.map reduce)
    else some (divLoop tail.length divisor p)

end Poly

end ArrowCircuit
