import ArrowCircuit.Curve.Bn254
import ArrowCircuit.Run

/-!
# Proving engines

An engine makes keys for a constraint system, proofs from witnesses, and decides on proofs. It may
have a state, and each of its calls may fail. The library's own engine has its source of randomness
as state.
-/

namespace ArrowCircuit

/-- A proving engine with state `σ`. -/
structure Engine (σ : Type) where
  name : String
  setup : ConstraintSystem → Run σ Groth16.KeyPair
  prove : (key : Bytes) → ConstraintSystem → Assignment → Run σ Groth16.ProofData
  verify : (key proof : Bytes) → List Value → Run σ Bool

namespace Engine

/-- The faults of an engine's stage: those of circuits stand, others are reported as the engine's. -/
def explain (engine stage : String) (f : Fault) : Fault :=
  if f.isCircuit then f else .engineFailed engine stage f.message

/-- A call of an engine, with its faults explained. -/
def call {σ α : Type} (E : Engine σ) (stage : String) (r : Run σ α) : Run σ α :=
  Run.ofStep fun s =>
    let (result, s) := r.exec s
    (result.mapError (explain E.name stage), s)

/-- The engine of the library. -/
def groth16 (S : PairingSuite) : Engine Entropy where
  name := "groth16"
  setup system := Run.ofStep fun e =>
    match Groth16.setup S system e with
    | .ok (keys, e) => (.ok keys, e)
    | .error f => (.error (.setup f), e)
  prove key system witness := Run.ofStep fun e =>
    match Groth16.prove S key system witness e with
    | .ok (proof, e) => (.ok proof, e)
    | .error f => (.error (.prove f), e)
  verify key proof inputs := Run.lift .verify (Groth16.verify S key proof inputs)

end Engine

end ArrowCircuit
