import ArrowCircuit.Constraint.System

/-!
# Reading constraint systems from JSON

The constraint system of a JSON form. Coefficients may be numbers or numerals, of either sign and of any
size; a computation of a type that is not known is kept by the name of its type.
-/

namespace ArrowCircuit

/-- The linear form of a list of pairs. -/
def LinearForm.ofJson (v : Json) : LinearForm :=
  v.items.map fun t => ⟨(t.items.getD 0 .null).integer, (t.items.getD 1 .null).natural⟩

/-- The computation of an object. -/
def Computation.ofJson (v : Json) : Computation :=
  let index (name : String) := (v.part name).natural
  let form (name : String) := LinearForm.ofJson (v.part name)
  match (v.part "type").string with
  | "subtract" =>
    .subtract (index "target_idx") (index "left_idx") (index "right_idx") (v.part "offset").integer
  | "bit_decompose" =>
    .bits (index "source_idx") ((v.part "bit_indices").items.map Json.natural) (index "num_bits")
  | "linear" => .linear (index "target_idx") (form "terms")
  | "product" => .product (index "target_idx") (form "left_terms") (form "right_terms")
  | "quotient" => .quotient (index "target_idx") (form "numerator_terms") (form "denominator_terms")
  | other => .unknown (Text.ofString other)

/-- The constraint system of an object. -/
def ConstraintSystem.ofJson (v : Json) : ConstraintSystem where
  numWitnesses := (v.part "num_witnesses").natural
  publicInputs := (v.part "public_inputs").items.map Json.natural
  privateInputs := (v.part "private_inputs").items.map Json.natural
  constraints := (v.part "constraints").items.map fun c =>
    ⟨.ofJson (c.part "a"), .ofJson (c.part "b"), .ofJson (c.part "c")⟩
  computations := (v.part "aux_witness_computations").items.map Computation.ofJson

end ArrowCircuit
