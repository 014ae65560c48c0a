import ArrowCircuit.Curve.Point
import ArrowCircuit.Proofs.Curve.Laws
import ArrowCircuit.Proofs.PrimeField.Prime
import Mathlib.Data.ZMod.Basic

/-!
# The scalars as a curve

What is assumed of curves can be met: here the points are the scalars themselves.  The scalar zero is
the point at infinity, any other scalar is written into the first coordinate, and the pairing of two
scalars is their product.  In these groups discrete logarithms are read off, so they serve to show
that the assumptions are consistent, and nothing else.
-/

namespace ArrowCircuit.Residues

/-- A place for scalars among the coordinates. -/
structure Embedding (F : Type) [Coordinate F] where
  toCoordinate : ZMod scalarModulus → F
  ofCoordinate : F → ZMod scalarModulus
  ofCoordinate_toCoordinate : ∀ x, ofCoordinate (toCoordinate x) = x
  ofCoordinate_zero : ofCoordinate Coordinate.zero = 0

theorem val_lt_baseModulus (x : ZMod scalarModulus) : x.val < baseModulus :=
  (ZMod.val_lt x).trans (by decide)

/-- Scalars are below the order of the base field. -/
def base : Embedding Fq where
  toCoordinate x := ⟨x.val, val_lt_baseModulus x⟩
  ofCoordinate a := a.val
  ofCoordinate_toCoordinate := ZMod.natCast_zmod_val
  ofCoordinate_zero := Nat.cast_zero

/-- Scalars as real parts. -/
def extension : Embedding Fq2 where
  toCoordinate x := ⟨base.toCoordinate x, Coordinate.zero⟩
  ofCoordinate a := base.ofCoordinate a.re
  ofCoordinate_toCoordinate := base.ofCoordinate_toCoordinate
  ofCoordinate_zero := base.ofCoordinate_zero

section

variable {F : Type} [Coordinate F] (E : Embedding F)

/-- The point of a scalar. -/
def point (x : ZMod scalarModulus) : Point F :=
  if x = 0 then .infinity else .affine (E.toCoordinate x) Coordinate.one

/-- The scalar of a point. -/
def scalar : Point F → ZMod scalarModulus
  | .infinity => 0
  | .affine x _ => E.ofCoordinate x

theorem scalar_point (x : ZMod scalarModulus) : scalar E (point E x) = x := by
  rw [point]
  split
  · next h => exact h.symm
  · exact E.ofCoordinate_toCoordinate x

theorem point_scalar_point (x : ZMod scalarModulus) : point E (scalar E (point E x)) = point E x := by
  rw [scalar_point]

theorem isInfinity_iff {p : Point F} (hp : point E (scalar E p) = p) :
    p.isInfinity = true ↔ scalar E p = 0 := by
  constructor
  · intro h
    cases p with
    | infinity => rfl
    | affine => cases h
  · intro h
    rw [← hp, h, point, if_pos rfl]
    rfl

variable [DecidableEq F]

/-- The arithmetic of the points of scalars. -/
def arithmetic : CurveArithmetic F where
  Point := Point F
  zero := .infinity
  add p q := point E (scalar E p + scalar E q)
  neg p := point E (-scalar E p)
  scale n p := point E (n • scalar E p)
  isZero := Point.isInfinity
  generator := point E 1
  toAffine := Point.coordinates
  ofAffine := .affine
  isOnCurve p := decide (point E (scalar E p) = p)

theorem isOnCurve_iff {p : Point F} :
    (arithmetic E).isOnCurve p = true ↔ point E (scalar E p) = p :=
  decide_eq_true_iff (p := point E (scalar E p) = p)

/-- The scalars meet what is assumed of a curve. -/
def models : (arithmetic E).Models (ZMod scalarModulus) where
  card_eq := Nat.card_zmod scalarModulus
  IsPoint p := point E (scalar E p) = p
  element := scalar E
  isPoint_zero := if_pos rfl
  isPoint_add _ _ := point_scalar_point E _
  isPoint_neg _ := point_scalar_point E _
  isPoint_scale _ _ := point_scalar_point E _
  isPoint_generator := point_scalar_point E 1
  element_zero := rfl
  element_add _ _ := scalar_point E _
  element_neg _ := scalar_point E _
  element_scale _ _ := scalar_point E _
  isZero_iff := isInfinity_iff E
  toAffine_eq_iff := by
    intro p q hp hq hp0 hq0
    cases p with
    | infinity => cases hp0
    | affine x y =>
        cases q with
        | infinity => cases hq0
        | affine x' y' =>
            constructor
            · rintro ⟨⟩
              rfl
            · intro h
              rw [← hp, ← hq, h]
  toAffine_ofAffine _ _ := rfl
  isZero_ofAffine _ _ := rfl
  isPoint_ofAffine := by
    intro p hp hp0
    cases p with
    | infinity => cases hp0
    | affine x y => exact hp
  isOnCurve_of_isPoint := (isOnCurve_iff E).mpr
  isOnCurve_origin := by
    -- the scalar in the origin is zero, and zero is at infinity
    refine Bool.eq_false_iff.mpr fun h => ?_
    have horigin : point E (E.ofCoordinate Coordinate.zero) = _ := (isOnCurve_iff E).mp h
    rw [E.ofCoordinate_zero, point, if_pos rfl] at horigin
    cases horigin

end

/-- The product as a pairing. -/
def suite : PairingSuite where
  curve := arithmetic base
  twist := arithmetic extension
  Target := ZMod scalarModulus
  pair q p := scalar extension q * scalar base p
  mul := (· + ·)
  beq x y := decide (x = y)

theorem bilinear : suite.Bilinear (models base) (models extension) where
  pair_congr := by
    intro q q' p p' _ _ _ _ hq hp
    exact congrArg₂ (fun x y : ZMod scalarModulus => x * y) hq hp
  pair_add_left := by
    intro q q' p _ _ _
    have hsum := scalar_point extension (scalar extension q + scalar extension q')
    exact (congrArg (· * scalar base p) hsum).trans (add_mul _ _ _)
  pair_add_right := by
    intro q p p' _ _ _
    have hsum := scalar_point base (scalar base p + scalar base p')
    exact (congrArg (scalar extension q * ·) hsum).trans (mul_add _ _ _)
  beq_iff := fun x y : ZMod scalarModulus => decide_eq_true_iff (p := x = y)

theorem nondegenerate : suite.Nondegenerate := by
  intro h
  have hone : (1 : ZMod scalarModulus) * 1 = 1 * 0 := by
    have hq : scalar extension (point extension 1) = 1 := scalar_point extension 1
    have hp : scalar base (point base 1) = 1 := scalar_point base 1
    have hpair : scalar extension (point extension 1) * scalar base (point base 1) =
        scalar extension (point extension 1) * 0 := h
    rwa [hq, hp] at hpair
  rw [mul_one, mul_zero] at hone
  exact one_ne_zero hone

end ArrowCircuit.Residues
