import ArrowCircuit.Curve.BaseField

/-!
# Points of a curve

Points of a curve `y² = x³ + b` in affine form, with the chord-and-tangent law. Multiples are computed
in Jacobian coordinates, where `(x, y, z)` stands for `(x / z², y / z³)`, and brought back to affine
form at the end.
-/

namespace ArrowCircuit

/-- A point: the neutral one at infinity, or a pair of coordinates. -/
inductive Point (F : Type) where
  | infinity
  | affine (x y : F)
  deriving DecidableEq, Repr

/-- A point in Jacobian coordinates; `z` is zero at infinity. -/
structure Jacobian (F : Type) where
  x : F
  y : F
  z : F

variable {F : Type} [Coordinate F] [DecidableEq F]

namespace Jacobian

/-- The point at infinity. -/
def infinity : Jacobian F := ⟨Coordinate.one, Coordinate.one, Coordinate.zero⟩

/-- Twice a point. -/
def double (p : Jacobian F) : Jacobian F :=
  let a := p.x * p.x
  let b := p.y * p.y
  let c := b * b
  let t := p.x + b
  let d := t * t - a - c
  let d := d + d
  let e := a + a + a
  let x := e * e - (d + d)
  let c2 := c + c
  let c4 := c2 + c2
  let yz := p.y * p.z
  ⟨x, e * (d - x) - (c4 + c4), yz + yz⟩

/-- The sum with the affine point `(x, y)`. -/
def addAffine (p : Jacobian F) (x y : F) : Jacobian F :=
  if p.z = Coordinate.zero then ⟨x, y, Coordinate.one⟩
  else
    let zz := p.z * p.z
    let h := x * zz - p.x
    let r := y * (p.z * zz) - p.y
    if h = Coordinate.zero then
      if r = Coordinate.zero then p.double else infinity
    else
      let hh := h * h
      let hhh := h * hh
      let v := p.x * hh
      let x := r * r - hhh - (v + v)
      ⟨x, r * (v - x) - p.y * hhh, p.z * h⟩

/-- The affine form. -/
def toPoint (p : Jacobian F) : Point F :=
  if p.z = Coordinate.zero then .infinity
  else
    let i := Coordinate.inv p.z
    let ii := i * i
    .affine (p.x * ii) (p.y * (i * ii))

end Jacobian

namespace Point

/-- Whether the point lies on the curve `y² = x³ + b`; the point at infinity does. -/
def isOnCurve (b : F) : Point F → Bool
  | .infinity => true
  | .affine x y => decide (y * y = x * x * x + b)

/-- Whether the point is the neutral one. -/
def isInfinity : Point F → Bool
  | .infinity => true
  | .affine .. => false

/-- The coordinates of a point; zeros at infinity. -/
def coordinates : Point F → F × F
  | .infinity => (Coordinate.zero, Coordinate.zero)
  | .affine x y => (x, y)

/-- The opposite point. -/
def neg : Point F → Point F
  | .infinity => .infinity
  | .affine x y => .affine x (-y)

/-- The third point on a line of the given slope, reflected. -/
def third (slope x₁ y₁ x₂ : F) : Point F :=
  let x := slope * slope - x₁ - x₂
  .affine x (slope * (x₁ - x) - y₁)

/-- The sum of two points. -/
def add : Point F → Point F → Point F
  | .infinity, q => q
  | p, .infinity => p
  | .affine x₁ y₁, .affine x₂ y₂ =>
    if x₁ = x₂ then
      if y₁ = y₂ then
        if y₁ = Coordinate.zero then .infinity
        else
          let xx := x₁ * x₁
          third ((xx + xx + xx) * Coordinate.inv (y₁ + y₁)) x₁ y₁ x₂
      else .infinity
    else third ((y₂ - y₁) * Coordinate.inv (x₂ - x₁)) x₁ y₁ x₂

/-- The multiple `n · p`. -/
def scale (n : Nat) : Point F → Point F
  | .infinity => .infinity
  | .affine x y =>
    ((binaryDigits n).foldl (fun acc bit =>
      let acc := acc.double
      if bit then acc.addAffine x y else acc) Jacobian.infinity).toPoint

end Point

end ArrowCircuit
