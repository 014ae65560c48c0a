import ArrowCircuit.Constraint.System

/-!
# Summaries

A short account of a constraint system: its sizes, where its inputs lie, and its first constraints.
-/

namespace ArrowCircuit.Summary

/-- A list of indices. -/
def indices (is : List Nat) : String := "[" ++ ", ".intercalate (is.map Numeral.decimalNat) ++ "]"

/-- The lines above the constraints. -/
def heading (s : ConstraintSystem) (shown : String) : List String :=
  ["=== R1CS Summary ===",
    "Witnesses: " ++ Numeral.decimalNat s.numWitnesses,
    "Private inputs: " ++ indices s.privateInputs,
    "Public inputs: " ++ indices s.publicInputs,
    "Constraints: " ++ Numeral.decimalNat s.constraints.length,
    "",
    "First constraints (up to " ++ shown ++ "):"]

/-- The line of a constraint. -/
def constraintLine (i : Nat) (c : Constraint) : String := "  [" ++ Numeral.decimalNat i ++ "] " ++ c.render

/-- The lines of the constraints and the line that closes the summary. -/
def body (constraints : List Constraint) : List String :=
  constraints.mapIdx constraintLine ++ ["===================="]

end ArrowCircuit.Summary
