import ArrowCircuit.Constraint.LinearForm

/-!
# Constraint systems

A rank-1 constraint says `(A·w) * (B·w) = C·w` of an assignment `w`. A system has a number of
witness indices, of which some hold the private and the public inputs, a list of constraints, and a
schedule of computations by which the other indices are filled in.
-/

namespace ArrowCircuit

/-- A rank-1 constraint. -/
structure Constraint where
  a : LinearForm
  b : LinearForm
  c : LinearForm
  deriving DecidableEq, Repr, Inhabited

/-- One step of the schedule that fills in a witness. -/
inductive Computation where
  /-- The difference of two values and an offset, as integers; it must not be negative. -/
  | subtract (target left right : Nat) (offset : Int)
  /-- The bits of a value, the lowest first. -/
  | bits (source : Nat) (targets : List Nat) (count : Nat)
  /-- The value of a linear form. -/
  | linear (target : Nat) (terms : LinearForm)
  /-- The product of two linear forms. -/
  | product (target : Nat) (left right : LinearForm)
  /-- The quotient of two linear forms. -/
  | quotient (target : Nat) (numerator denominator : LinearForm)
  /-- A step of a kind that is not known here. -/
  | unknown (name : Text)
  deriving DecidableEq, Repr

/-- A rank-1 constraint system. -/
structure ConstraintSystem where
  numWitnesses : Nat
  publicInputs : List Nat
  privateInputs : List Nat
  constraints : List Constraint
  computations : List Computation
  deriving DecidableEq, Repr, Inhabited

/-- The constraint as an equation. -/
def Constraint.render (c : Constraint) : String :=
  "(" ++ c.a.render ++ ") * (" ++ c.b.render ++ ") = (" ++ c.c.render ++ ")"

/-- The indices with a nonzero coefficient somewhere in the constraint, in increasing order. -/
def Constraint.support (c : Constraint) : List Nat :=
  let indices := (c.a ++ c.b ++ c.c).filterMap fun t =>
    if t.coefficient = 0 then none else some t.index
  (indices.mergeSort (· ≤ ·)).eraseReps

/-- A linear form in JSON: pairs of a hexadecimal coefficient and an index. -/
def LinearForm.toJson (terms : LinearForm) : Json :=
  .array (terms.map fun t => .array [.str (Numeral.hex t.coefficient), .nat t.index])

/-- A constraint in JSON. -/
def Constraint.toJson (c : Constraint) : Json :=
  .object [("a", c.a.toJson), ("b", c.b.toJson), ("c", c.c.toJson)]

/-- A computation in JSON. -/
def Computation.toJson : Computation → Json
  | .subtract target left right offset =>
    .object [("type", .str "subtract"), ("target_idx", .nat target), ("left_idx", .nat left),
      ("right_idx", .nat right), ("offset", .int offset)]
  | .bits source targets count =>
    .object [("type", .str "bit_decompose"), ("source_idx", .nat source),
      ("bit_indices", .array (targets.map Json.nat)), ("num_bits", .nat count)]
  | .linear target terms =>
    .object [("type", .str "linear"), ("target_idx", .nat target), ("terms", terms.toJson)]
  | .product target left right =>
    .object [("type", .str "product"), ("target_idx", .nat target), ("left_terms", left.toJson),
      ("right_terms", right.toJson)]
  | .quotient target numerator denominator =>
    .object [("type", .str "quotient"), ("target_idx", .nat target),
      ("numerator_terms", numerator.toJson), ("denominator_terms", denominator.toJson)]
  | .unknown name => .object [("type", .text name)]

/-- A constraint system in JSON. -/
def ConstraintSystem.toJson (s : ConstraintSystem) : Json :=
  .object [("num_witnesses", .nat s.numWitnesses),
    ("public_inputs", .array (s.publicInputs.map Json.nat)),
    ("private_inputs", .array (s.privateInputs.map Json.nat)),
    ("constraints", .array (s.constraints.map Constraint.toJson)),
    ("aux_witness_computations", .array (s.computations.map Computation.toJson))]

end ArrowCircuit
