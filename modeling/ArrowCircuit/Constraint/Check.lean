import ArrowCircuit.Constraint.System

/-!
# Checking assignments

Two ways to check an assignment against a constraint system: constraint by constraint over the
terms, and at once over dense matrices whose entries are reduced modulo the scalar modulus. The
outcome is reported in JSON: whether all constraints hold, which are violated, and by how much.
-/

namespace ArrowCircuit

/-- Why a check has no outcome. -/
inductive CheckFault where
  /-- The assignment has no value for an index. -/
  | missing (index : Nat)
  /-- A term has an index beyond the witness. -/
  | outOfRange (index : Nat)
  deriving DecidableEq, Repr

/-- The residual `(A·w) * (B·w) - C·w` modulo `p`, which is zero when the constraint holds. -/
def Constraint.residual (p : Nat) (w : Assignment) (c : Constraint) : Except CheckFault Int := do
  let a ← (c.a.eval p w).mapError .missing
  let b ← (c.b.eval p w).mapError .missing
  let c ← (c.c.eval p w).mapError .missing
  return (a * b - c) % (p : Int)

namespace LinearForm

/-- The form as a dense row of `n` entries modulo `p`. -/
def denseRow (p n : Nat) (terms : LinearForm) : Except CheckFault (List Int) :=
  match terms.find? fun t => n ≤ t.index with
  | some t => .error (.outOfRange t.index)
  | none =>
    let empty := Array.replicate n (0 : Int)
    .ok (terms.foldl (fun row t => row.modify t.index fun x => (x + t.coefficient) % (p : Int))
      empty).toList

end LinearForm

/-- The product of a row and a column. -/
def dot : List Int → List Int → Int
  | x :: xs, y :: ys => x * y + dot xs ys
  | _, _ => 0

namespace ConstraintSystem

/-- The dense rows of one side of all constraints, modulo the scalar modulus. -/
def denseRows (s : ConstraintSystem) (side : Constraint → LinearForm) :
    Except CheckFault (List (List Int)) :=
  s.constraints.mapM fun c => (side c).denseRow scalarModulus s.numWitnesses

/-- The values of all indices of the witness. -/
def witnessVector (s : ConstraintSystem) (w : Assignment) : Except CheckFault (List Int) :=
  (List.range s.numWitnesses).mapM fun i =>
    match w.get? i with
    | some v => .ok v
    | none => .error (.missing i)

/-- The positions of the constraints that the assignment violates modulo `p`. -/
def unsatisfied (s : ConstraintSystem) (p : Nat) (w : Assignment) : Except CheckFault (List Nat) :=
  if s.constraints.isEmpty then .ok []
  else do
    let a ← s.denseRows (·.a)
    let b ← s.denseRows (·.b)
    let c ← s.denseRows (·.c)
    let w ← s.witnessVector w
    let residuals := (a.zip (b.zip c)).map fun (a, b, c) => (dot a w * dot b w - dot c w) % (p : Int)
    return (residuals.zipIdx.filter (·.1 ≠ 0)).map (·.2)

/-- Whether index zero is one and no constraint is violated modulo `p`. -/
def isSatisfied (s : ConstraintSystem) (p : Nat) (w : Assignment) : Except CheckFault Bool :=
  if w.get? oneIndex = some 1 then do return (← s.unsatisfied p w).isEmpty
  else .ok false

/-- The nonzero residuals modulo `p` with the positions of their constraints. -/
def residuals (s : ConstraintSystem) (p : Nat) (w : Assignment) :
    Except CheckFault (List (Nat × Int)) := do
  let all ← s.constraints.mapM (·.residual p w)
  return (all.zipIdx.filter (·.1 ≠ 0)).map fun (r, i) => (i, r)

/-- The outcome of a check modulo `p`. -/
def report (s : ConstraintSystem) (p : Nat) (w : Assignment) : Except CheckFault (List (String × Json)) := do
  let satisfied ← s.isSatisfied p w
  let unsatisfied ← s.unsatisfied p w
  let residuals ← s.residuals p w
  return [("satisfied", .bool satisfied), ("unsatisfied", .array (unsatisfied.map Json.nat)),
    ("residuals", .object (residuals.map fun (i, r) => (Numeral.decimalNat i, .str (Numeral.hex r))))]

end ConstraintSystem

end ArrowCircuit
