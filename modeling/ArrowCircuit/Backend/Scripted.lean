import ArrowCircuit.Backend.Engine
import ArrowCircuit.Backend.System

/-!
# Scripted engines

An engine whose calls have listed outcomes, and a backend with a fixed key that only reads circuits.
They stand in for real ones where only the life of keys and circuits matters.
-/

namespace ArrowCircuit

/-- The number of calls of each kind. -/
structure CallCounts where
  setup : Nat := 0
  prove : Nat := 0
  verify : Nat := 0
  deriving DecidableEq, Repr

/-- An engine by its outcomes. -/
structure EngineScript where
  name : String
  setup : List (Except Fault Groth16.KeyPair)
  prove : List (Except Fault Groth16.ProofData)
  verify : List (Except Fault Bool)

namespace EngineScript

/-- The outcome of the `n`-th call: outcomes come in turn, and the last is repeated. -/
def outcome {α : Type} (outcomes : List (Except Fault α)) (n : Nat) : Except Fault α :=
  ((outcomes[n]?).or outcomes.getLast?).getD (.error (.reported .position "list index out of range"))

/-- The engine of a script. -/
def engine (s : EngineScript) : Engine CallCounts where
  name := s.name
  setup _ := Run.ofStep fun n => (outcome s.setup n.setup, { n with setup := n.setup + 1 })
  prove _ _ _ := Run.ofStep fun n => (outcome s.prove n.prove, { n with prove := n.prove + 1 })
  verify _ _ _ := Run.ofStep fun n => (outcome s.verify n.verify, { n with verify := n.verify + 1 })

end EngineScript

/-- A backend that only reads circuits and gives out a fixed key. -/
def ProvingSystem.fixed (name : String) (key : Option Bytes) : ProvingSystem Unit Circuit where
  name
  compile source _ := Run.lift id source.circuit
  info circuit := { circuit, backend := name }
  prove _ := Run.fault (.notImplemented "generate_proof")
  verify _ _ := Run.fault (.notImplemented "verify_proof")
  verifyingKey := pure key

end ArrowCircuit
