import ArrowCircuit.Curve.Bn254
import ArrowCircuit.Proofs.Curve.BaseField
import ArrowCircuit.Proofs.Curve.Canonical
import Mathlib.Tactic.FieldSimp

/-!
# Two representations of the points of BN254

The byte format asks little of the arithmetic of a curve, and points in affine form give it at once.
Points in projective form do so as well: `(x, y, z)` stands for `(x / z, y / z)`, any multiple of it
stands for the same point, and any triple with `z = 0` stands for the point at infinity.  That the
equation `y² z - x³ = b z³` is that of the curve needs the laws of the coordinate field.
-/

namespace ArrowCircuit

/-- A curve whose constant is not zero does not go through the origin. -/
theorem Coordinate.IsField.not_equation_origin {F K : Type} [Coordinate F] [Field K]
    (hF : Coordinate.IsField F K) {b : F} (hb : b ≠ Coordinate.zero) :
    ¬CurveArithmetic.Equation b Coordinate.zero Coordinate.zero := by
  intro h
  apply hb
  apply hF.toField.injective
  have hzero := congrArg hF.toField h
  rw [hF.map_add, hF.map_mul, hF.map_mul, hF.map_mul, hF.map_zero] at hzero
  rw [hF.map_zero]
  linear_combination -hzero

theorem curveConstant_ne_zero : curveConstant ≠ Coordinate.zero := by decide +kernel

theorem twistConstant_ne_zero : twistConstant ≠ Coordinate.zero := by decide +kernel

/-! ## Affine form -/

theorem Bn254.lawful_arithmetic {F K : Type} [Coordinate F] [DecidableEq F] [Field K]
    (hF : Coordinate.IsField F K) {b : F} {generator : Point F} (hb : b ≠ Coordinate.zero) :
    (Bn254.arithmetic b generator).Lawful b where
  isZero_zero := rfl
  isZero_ofAffine _ _ := rfl
  toAffine_ofAffine _ _ := rfl
  isOnCurve_of_isZero := by
    intro p hp
    cases p with
    | infinity => rfl
    | affine x y => cases hp
  isOnCurve_iff := by
    intro p hp
    cases p with
    | infinity => cases hp
    | affine x y => exact decide_eq_true_iff
  not_equation_origin := hF.not_equation_origin hb

theorem Bn254.lawful_curve : Bn254.suite.curve.Lawful curveConstant :=
  lawful_arithmetic Fq.isField curveConstant_ne_zero

theorem Bn254.lawful_twist : Bn254.suite.twist.Lawful twistConstant :=
  lawful_arithmetic Fq2.isField twistConstant_ne_zero

/-! ## Projective form -/

/-- A point in projective form. -/
structure Projective (F : Type) where
  x : F
  y : F
  z : F
  deriving DecidableEq

namespace Projective

section

variable {F : Type} [Coordinate F]

/-- The coordinates of the point that is stood for. -/
def toAffine (p : Projective F) : F × F := (p.x * Coordinate.inv p.z, p.y * Coordinate.inv p.z)

/-- The form of the point at infinity. -/
def infinity : Projective F := ⟨Coordinate.one, Coordinate.one, Coordinate.zero⟩

/-- The form of a pair of coordinates. -/
def ofAffine (x y : F) : Projective F := ⟨x, y, Coordinate.one⟩

/-- The projective form of a point. -/
def ofPoint : Point F → Projective F
  | .infinity => infinity
  | .affine x y => ofAffine x y

section Equation

variable {K : Type} [Field K] (hF : Coordinate.IsField F K) {b : F}

include hF

theorem one_ne_zero : (Coordinate.one : F) ≠ Coordinate.zero := by
  intro h
  have hone := hF.map_one
  rw [h, hF.map_zero] at hone
  exact zero_ne_one hone

/-- The equation of the projective form is that of the coordinates. -/
theorem equation_iff {p : Projective F} (hz : p.z ≠ Coordinate.zero) :
    p.y * p.y * p.z - p.x * p.x * p.x = b * (p.z * p.z * p.z) ↔
      CurveArithmetic.Equation b p.toAffine.1 p.toAffine.2 := by
  have hz' : hF.toField p.z ≠ 0 := by
    intro h
    exact hz (hF.toField.injective (h.trans hF.map_zero.symm))
  rw [CurveArithmetic.Equation, toAffine, ← hF.toField.injective.eq_iff,
    ← hF.toField.injective.eq_iff]
  simp only [hF.map_mul, hF.map_sub, hF.map_add, hF.map_inv hz]
  -- both sides are an equation of fractions with the denominator `z³`
  constructor
  · intro h
    field_simp
    linear_combination h
  · intro h
    field_simp at h
    linear_combination h

end Equation

variable [DecidableEq F]

/-- Whether the point is the one at infinity. -/
def isZero (p : Projective F) : Bool := p.z = Coordinate.zero

/-- Whether the point lies on the curve `y² = x³ + b`. -/
def isOnCurve (b : F) (p : Projective F) : Bool :=
  p.isZero || p.y * p.y * p.z - p.x * p.x * p.x = b * (p.z * p.z * p.z)

theorem isOnCurve_iff {b : F} {p : Projective F} (h : p.isZero = false) :
    p.isOnCurve b = true ↔ p.y * p.y * p.z - p.x * p.x * p.x = b * (p.z * p.z * p.z) := by
  rw [isOnCurve, h, Bool.false_or, decide_eq_true_iff]

/-- The affine form. -/
def toPoint (p : Projective F) : Point F :=
  if p.isZero then .infinity else .affine p.toAffine.1 p.toAffine.2

/-- The arithmetic of the curve `y² = x³ + b` on projective forms, by way of affine ones. -/
def arithmetic (b : F) (generator : Point F) : CurveArithmetic F where
  Point := Projective F
  zero := infinity
  add p q := ofPoint (p.toPoint.add q.toPoint)
  neg p := ofPoint p.toPoint.neg
  scale n p := ofPoint (p.toPoint.scale n)
  isZero := isZero
  generator := ofPoint generator
  toAffine := toAffine
  ofAffine := ofAffine
  isOnCurve := isOnCurve b

variable {K : Type} [Field K] (hF : Coordinate.IsField F K) {b : F}

include hF

theorem lawful_arithmetic {generator : Point F} (hb : b ≠ Coordinate.zero) :
    (arithmetic b generator).Lawful b where
  isZero_zero := decide_eq_true rfl
  isZero_ofAffine _ _ := decide_eq_false (one_ne_zero hF)
  toAffine_ofAffine x y := by
    have hone : ∀ a : F, a * Coordinate.inv Coordinate.one = a := by
      intro a
      apply hF.toField.injective
      rw [hF.map_mul, hF.map_inv (one_ne_zero hF), hF.map_one, inv_one, mul_one]
    exact Prod.ext (hone x) (hone y)
  isOnCurve_of_isZero hp := (Bool.or_eq_true _ _).mpr (.inl hp)
  isOnCurve_iff := by
    intro p hp
    have hz : p.z ≠ Coordinate.zero := of_decide_eq_false hp
    exact (isOnCurve_iff hp).trans (equation_iff hF hz)
  not_equation_origin := hF.not_equation_origin hb

end

/-- The suite of BN254 with points in projective form. -/
def suite : PairingSuite where
  curve := arithmetic curveConstant generator₁
  twist := arithmetic twistConstant generator₂
  Target := Fq12
  pair q p := pairing q.toPoint p.toPoint
  mul := Fq12.mul
  beq a b := decide (a = b)

theorem lawful_curve : suite.curve.Lawful curveConstant :=
  lawful_arithmetic Fq.isField curveConstant_ne_zero

theorem lawful_twist : suite.twist.Lawful twistConstant :=
  lawful_arithmetic Fq2.isField twistConstant_ne_zero

end Projective

end ArrowCircuit
