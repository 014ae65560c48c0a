import ArrowCircuit.Constraint.Check

/-!
# Quadratic programs

The dense matrices of a constraint system with one row more for the constant one and for each public
input. Such a row names its index on the first side only, so that the columns of the instance are
linearly independent.
-/

namespace ArrowCircuit

/-- The three sides of a system as dense matrices. -/
structure Qap where
  a : List (List Int)
  b : List (List Int)
  c : List (List Int)
  deriving DecidableEq, Repr

/-- The number of rows. -/
def Qap.size (q : Qap) : Nat := q.a.length

namespace ConstraintSystem

/-- The indices that the verifier sees: the constant one and the public inputs. -/
def instanceIndices (s : ConstraintSystem) : List Nat := oneIndex :: s.publicInputs

/-- The rows of a system: its constraints, then `x * 0 = 0` for each index of the instance. -/
def qapConstraints (s : ConstraintSystem) : List Constraint :=
  s.constraints ++ s.instanceIndices.map fun i => ⟨[⟨1, i⟩], [], []⟩

/-- The matrices of a system; a term must not lie beyond the witness. -/
def qap (s : ConstraintSystem) : Except CheckFault Qap := do
  let rows (side : Constraint → LinearForm) :=
    s.qapConstraints.mapM fun c => (side c).denseRow scalarModulus s.numWitnesses
  let a ← rows (·.a)
  let b ← rows (·.b)
  let c ← rows (·.c)
  return ⟨a, b, c⟩

end ConstraintSystem

end ArrowCircuit
