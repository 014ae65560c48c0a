import ArrowCircuit.Curve.Point

/-!
# The pairing

The curve BN254 with its sextic twist, and the optimal ate pairing of a point of the twist with a
point of the curve. Values lie in an extension of degree twelve, built as a tower: cubic over the
quadratic extension by `v³ = 9 + i`, then quadratic by `w² = v`.
-/

namespace ArrowCircuit

/-! ## The tower -/

/-- An element `c₀ + c₁ v + c₂ v²` of the extension of degree six. -/
structure Fq6 where
  c0 : Fq2
  c1 : Fq2
  c2 : Fq2
  deriving DecidableEq, Repr

/-- An element `c₀ + c₁ w` of the extension of degree twelve. -/
structure Fq12 where
  c0 : Fq6
  c1 : Fq6
  deriving DecidableEq, Repr

namespace Fq2

/-- The cube of `v`. -/
def xi : Fq2 := ofNats 9 1

/-- The product with `9 + i`. -/
def mulXi (a : Fq2) : Fq2 :=
  let nine (x : Fq) : Fq :=
    let x2 := x + x
    let x4 := x2 + x2
    x4 + x4 + x
  ⟨nine a.re - a.im, nine a.im + a.re⟩

/-- The neutral element of addition. -/
def zero : Fq2 := Coordinate.zero

/-- The neutral element of multiplication. -/
def one : Fq2 := Coordinate.one

end Fq2

namespace Fq6

/-- The sum. -/
def add (a b : Fq6) : Fq6 := ⟨a.c0 + b.c0, a.c1 + b.c1, a.c2 + b.c2⟩

/-- The difference. -/
def sub (a b : Fq6) : Fq6 := ⟨a.c0 - b.c0, a.c1 - b.c1, a.c2 - b.c2⟩

/-- The opposite element. -/
def neg (a : Fq6) : Fq6 := ⟨-a.c0, -a.c1, -a.c2⟩

/-- The product, from six products in the quadratic extension. -/
def mul (a b : Fq6) : Fq6 :=
  let t0 := a.c0 * b.c0
  let t1 := a.c1 * b.c1
  let t2 := a.c2 * b.c2
  let m12 := (a.c1 + a.c2) * (b.c1 + b.c2) - t1 - t2
  let m01 := (a.c0 + a.c1) * (b.c0 + b.c1) - t0 - t1
  let m02 := (a.c0 + a.c2) * (b.c0 + b.c2) - t0 - t2
  ⟨t0 + m12.mulXi, m01 + t2.mulXi, m02 + t1⟩

/-- The product with `v`. -/
def mulV (a : Fq6) : Fq6 := ⟨a.c2.mulXi, a.c0, a.c1⟩

/-- The inverse, by way of the norm to the quadratic extension. -/
def inv (a : Fq6) : Fq6 :=
  let t0 := a.c0 * a.c0 - (a.c1 * a.c2).mulXi
  let t1 := (a.c2 * a.c2).mulXi - a.c0 * a.c1
  let t2 := a.c1 * a.c1 - a.c0 * a.c2
  let norm := a.c0 * t0 + (a.c2 * t1 + a.c1 * t2).mulXi
  let i := Fq2.inv norm
  ⟨t0 * i, t1 * i, t2 * i⟩

/-- The element one. -/
def one : Fq6 := ⟨Fq2.one, Fq2.zero, Fq2.zero⟩

/-- The element zero. -/
def zero : Fq6 := ⟨Fq2.zero, Fq2.zero, Fq2.zero⟩

end Fq6

namespace Fq12

/-- The element one. -/
def one : Fq12 := ⟨Fq6.one, Fq6.zero⟩

/-- The product, from three products in the extension of degree six. -/
def mul (a b : Fq12) : Fq12 :=
  let t0 := a.c0.mul b.c0
  let t1 := a.c1.mul b.c1
  let m := ((a.c0.add a.c1).mul (b.c0.add b.c1)).sub (t0.add t1)
  ⟨t0.add t1.mulV, m⟩

/-- The square, from two products in the extension of degree six. -/
def square (a : Fq12) : Fq12 :=
  let t := a.c0.mul a.c1
  let m := (a.c0.add a.c1).mul (a.c0.add a.c1.mulV)
  ⟨m.sub (t.add t.mulV), t.add t⟩

/-- The conjugate over the extension of degree six. -/
def conj (a : Fq12) : Fq12 := ⟨a.c0, a.c1.neg⟩

/-- The inverse. -/
def inv (a : Fq12) : Fq12 :=
  let norm := (a.c0.mul a.c0).sub (a.c1.mul a.c1).mulV
  let i := norm.inv
  ⟨a.c0.mul i, (a.c1.mul i).neg⟩

/-- The power by squaring and multiplying. -/
def pow (a : Fq12) (n : Nat) : Fq12 :=
  (binaryDigits n).foldl (fun acc bit => if bit then acc.square.mul a else acc.square) one

end Fq12

/-! ## The groups -/

/-- The order of the two groups. -/
def curveOrder : Nat := 0x30644E72E131A029B85045B68181585D2833E84879B9709143E1F593F0000001

/-- The constant of the curve. -/
def curveConstant : Fq := .ofNat 3

/-- The constant of the twist, `3 / (9 + i)`. -/
def twistConstant : Fq2 := Fq2.scale curveConstant (Fq2.inv Fq2.xi)

/-- The generator of the group on the curve. -/
def generator₁ : Point Fq := .affine (.ofNat 1) (.ofNat 2)

/-- The generator of the group on the twist. -/
def generator₂ : Point Fq2 :=
  .affine
    (.ofNats 0x1800deef121f1e76426a00665e5c4479674322d4f75edadd46debd5cd992f6ed
      0x198e9393920d483a7260bfb731fb5d25f1aa493335a9e71297e485b7aef312c2)
    (.ofNats 0x12c85ea5db8c6deb4aab71808dcb408fe3d1e7690c43d37b4ce6cc0166fa7daa
      0x090689d0585ff075ec9e99ad690c3395bc4b313370b38ef355acdadcd122975b)

/-! ## The pairing -/

/-- The line of a slope through a point of the twist, at the point `(px, py)` of the curve. -/
def lineValue (slope x y : Fq2) (px py : Fq) : Fq12 :=
  ⟨⟨⟨py, Coordinate.zero⟩, Fq2.zero, Fq2.zero⟩,
    ⟨-(Fq2.scale px slope), slope * x - y, Fq2.zero⟩⟩

/-- The vertical line through a point of the twist, at the abscissa `px` of a point of the curve. -/
def verticalValue (x : Fq2) (px : Fq) : Fq12 :=
  ⟨⟨⟨px, Coordinate.zero⟩, -x, Fq2.zero⟩, Fq6.zero⟩

/-- The tangent at a point of the twist, and twice the point. -/
def tangentStep (px py : Fq) : Point Fq2 → Fq12 × Point Fq2
  | .infinity => (Fq12.one, .infinity)
  | .affine x y =>
    let xx := x * x
    let slope := (xx + xx + xx) * Fq2.inv (y + y)
    (lineValue slope x y px py, Point.third slope x y x)

/-- The chord through two points of the twist, and their sum. -/
def chordStep (px py : Fq) : Point Fq2 → Point Fq2 → Fq12 × Point Fq2
  | .affine x₁ y₁, .affine x₂ y₂ =>
    if x₁ = x₂ then
      if y₁ = y₂ then tangentStep px py (.affine x₁ y₁)
      else (verticalValue x₁ px, .infinity)
    else
      let slope := (y₂ - y₁) * Fq2.inv (x₂ - x₁)
      (lineValue slope x₁ y₁ px py, Point.third slope x₁ y₁ x₂)
  | .infinity, q => (Fq12.one, q)
  | p, .infinity => (Fq12.one, p)

/-- The length `6u + 2` of the pairing loop. -/
def loopLength : Nat := 29793968203157093288

/-- The factor of the abscissa in the power map on the twist. -/
def frobeniusX : Fq2 := Coordinate.pow Fq2.xi ((baseModulus - 1) / 3)

/-- The factor of the ordinate in the power map on the twist. -/
def frobeniusY : Fq2 := Coordinate.pow Fq2.xi ((baseModulus - 1) / 2)

/-- The power map to the order of the base field, on the twist. -/
def frobenius : Point Fq2 → Point Fq2
  | .infinity => .infinity
  | .affine x y => .affine (x.conj * frobeniusX) (y.conj * frobeniusY)

/-- The product of lines along the binary digits of the loop length, and two more by the power map. -/
def millerLoop (q : Point Fq2) (px py : Fq) : Fq12 :=
  let step (acc : Fq12 × Point Fq2) (bit : Bool) : Fq12 × Point Fq2 :=
    let (f, t) := acc
    let (l, t) := tangentStep px py t
    let f := f.square.mul l
    if bit then
      let (l, t) := chordStep px py t q
      (f.mul l, t)
    else (f, t)
  let (f, t) := ((binaryDigits loopLength).drop 1).foldl step (Fq12.one, q)
  let q₁ := frobenius q
  let q₂ := (frobenius q₁).neg
  let (l₁, t) := chordStep px py t q₁
  let (l₂, _) := chordStep px py t q₂
  (f.mul l₁).mul l₂

/-- The power that makes the value of the loop a root of unity of the order of the groups. -/
def finalPower (f : Fq12) : Fq12 :=
  let g := f.conj.mul f.inv
  g.pow ((Nat.pow baseModulus 6 + 1) / curveOrder)

/-- The pairing of a point of the twist with a point of the curve; one if either is at infinity. -/
def pairing : Point Fq2 → Point Fq → Fq12
  | .infinity, _ => Fq12.one
  | _, .infinity => Fq12.one
  | q, .affine px py => finalPower (millerLoop q px py)

end ArrowCircuit
