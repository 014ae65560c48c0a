import ArrowCircuit.Curve.Format

/-!
# Pairing suites

What a pairing-based proof system asks of its curves: a curve, its twist, and a pairing of their
points into a third group. Proof systems are written over an arbitrary suite.
-/

namespace ArrowCircuit

/-- A curve, its twist and a pairing of them. -/
structure PairingSuite where
  curve : CurveArithmetic Fq
  twist : CurveArithmetic Fq2
  Target : Type
  pair : twist.Point → curve.Point → Target
  mul : Target → Target → Target
  beq : Target → Target → Bool

namespace PairingSuite

variable (S : PairingSuite)

/-- The group of the curve. -/
def g1 : PointGroup := S.curve.pointGroup "G1"

/-- The group of the twist. -/
def g2 : PointGroup := S.twist.pointGroup "G2"

end PairingSuite

end ArrowCircuit
