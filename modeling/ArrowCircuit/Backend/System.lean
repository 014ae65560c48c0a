import ArrowCircuit.Run

/-!
# Proving systems

What every backend offers: it compiles circuits, proves and verifies with a compiled circuit, and may
give out its verifying key. A compiled circuit may change while it is used, as when keys are made on
first use; it is therefore part of the state of these runs.
-/

namespace ArrowCircuit

/-- A circuit as it is given to a backend. -/
inductive Source where
  | script (text : String)
  | parsed (circuit : Circuit)
  deriving Repr

/-- The circuit of a source. -/
def Source.circuit : Source → Except Fault Circuit
  | .script text => (Circuit.parse text).mapError .script
  | .parsed c => .ok c

/-- Settings of a single compilation, which count before those of the backend. -/
structure CompileOptions where
  bits : Option Value := none
  eagerSetup : Option Bool := none
  deriving Repr

/-- What callers see of a compiled circuit. -/
structure CircuitInfo where
  circuit : Circuit
  backend : String
  noir : Option String := none
  /-- The numbers of witnesses and constraints, where the backend has them. -/
  sizes : Option (Nat × Nat) := none
  deriving Repr

/-- The sizes of a compiled circuit in JSON. -/
def CircuitInfo.metadata (i : CircuitInfo) : Json :=
  match i.sizes with
  | some (witnesses, constraints) =>
    .object [("num_witnesses", .nat witnesses), ("num_constraints", .nat constraints)]
  | none => .object []

/-- A backend with state `σ` and compiled circuits `C`. -/
structure ProvingSystem (σ C : Type) where
  name : String
  compile : Source → CompileOptions → Run σ C
  info : C → CircuitInfo
  prove : InputMap Value → Run (C × σ) Groth16.ProofData
  verify : (proof : Bytes) → List Value → Run (C × σ) Bool
  verifyingKey : Run (C × σ) (Option Bytes)

end ArrowCircuit
