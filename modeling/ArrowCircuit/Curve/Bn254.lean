import ArrowCircuit.Curve.Pairing
import ArrowCircuit.Curve.Suite

/-!
# The BN254 suite

The curve BN254 and its twist with points in affine form, which is unique.
-/

namespace ArrowCircuit.Bn254

/-- The arithmetic of the curve `y² = x³ + b`. -/
def arithmetic {F : Type} [Coordinate F] [DecidableEq F] (b : F) (generator : Point F) :
    CurveArithmetic F where
  Point := Point F
  zero := .infinity
  add := Point.add
  neg := Point.neg
  scale := Point.scale
  isZero := Point.isInfinity
  generator := generator
  toAffine := Point.coordinates
  ofAffine := Point.affine
  isOnCurve := Point.isOnCurve b

/-- The suite of the curve, its twist and their pairing. -/
def suite : PairingSuite where
  curve := arithmetic curveConstant generator₁
  twist := arithmetic twistConstant generator₂
  Target := Fq12
  pair := pairing
  mul := Fq12.mul
  beq a b := decide (a = b)

/-- The group of the curve. -/
def g1 : PointGroup := suite.g1

/-- The group of the twist. -/
def g2 : PointGroup := suite.g2

end ArrowCircuit.Bn254
