import ArrowCircuit.Proofs.Run
import ArrowCircuit.Session

/-!
# Sessions over backends

A session reaches its backend only through the three runs of the backend that use a circuit, and through
compilation.  Where one backend watches another one, so do the sessions over them: what is said of the
runs of a backend carries over to everything that a session does with its circuit.
-/

namespace ArrowCircuit

open Run

variable {σ τ C D : Type}

/-- A backend whose runs are those of another one, seen through a view of circuit and state, and relate
the states before and after them. -/
structure ProvingSystem.Watches (B : ProvingSystem τ D) (B' : ProvingSystem σ C)
    (view : D × τ → C × σ) (R : D × τ → D × τ → Prop) : Prop where
  name : B.name = B'.name
  info : ∀ x, B.info x.1 = B'.info (view x).1
  prove : ∀ inputs x, Tracks view R x (B.prove inputs) (B'.prove inputs)
  verify : ∀ proof inputs x, Tracks view R x (B.verify proof inputs) (B'.verify proof inputs)
  verifyingKey : ∀ x, Tracks view R x B.verifyingKey B'.verifyingKey

namespace Session

/-! ## Parts of steps -/

section Parts

variable (S : Session σ C)

/-- What is done with the circuit for the form of a proof on the chain, where `n` inputs are public. -/
def sealRun (proof : Groth16.ProofData) (n : Nat) : Run (C × σ) ChainProof := do
  let count ← Run.lift .chain (ChainProof.checkProof proof.proof proof.publicInputs n)
  let key ← S.system.verifyingKey
  Run.lift .chain (ChainProof.assemble S.system.name key S.rate proof.proof proof.publicInputs count)

/-- What is done with the circuit for a proof. -/
def proveRun (inputs : InputMap Value) : Run (C × σ) Outcome := do
  let proof ← S.system.prove inputs
  if S.chain.isNone then return .plain proof
  return .onChain (← S.formatRun proof)

theorem prove_eq (inputs : InputMap Value) : S.prove inputs = onCircuit (S.proveRun inputs) := rfl

/-- What is done with the circuit of a script: a proof, the decision on it, and its form for the chain. -/
def concludeRun (noir : String) (inputs : InputMap Value) : Run (C × σ) Creation := do
  let proof ← S.system.prove inputs
  let verified ← S.system.verify proof.proof proof.publicInputs
  let chain ← if S.chain.isSome then some <$> S.formatRun proof else pure none
  return { proof, verified, noir, chain }

/-- The first part of the way from a script to a proof: what is done until its circuit is compiled. -/
def prepare (script : String) : Run (State σ C) (Circuit × String) := do
  let circuit ← Run.lift id (Source.script script).circuit
  let noir ← Run.lift .noir (Noir.program circuit)
  let _ ← S.compile (.parsed circuit) {}
  return (circuit, noir)

/-- The second part: a proof for values in order, and the decision on it. -/
def conclude (publicValues privateValues : Value) (prepared : Circuit × String) :
    Run (State σ C) Creation := do
  let inputs ← Run.lift id (namedInputs prepared.1 publicValues privateValues)
  onCircuit (S.concludeRun prepared.2 inputs)

theorem create_eq (script : String) (publicValues privateValues : Value) :
    S.create script publicValues privateValues =
      S.prepare script >>= S.conclude publicValues privateValues := by
  simp only [create, prepare, conclude, concludeRun, bind_assoc, pure_bind]

end Parts

/-! ## Watched sessions -/

section Watched

variable {B : ProvingSystem τ D} {B' : ProvingSystem σ C} {view : D × τ → C × σ}
  {R : D × τ → D × τ → Prop} [IsPreorder (D × τ) R] (h : B.Watches B' view R)
  (chain : Option Chain) (rate : Json) (x : D × τ)

include h

theorem tracks_sealRun (proof : Groth16.ProofData) (n : Nat) :
    Tracks view R x (sealRun ⟨B, chain, rate⟩ proof n) (sealRun ⟨B', chain, rate⟩ proof n) := by
  refine .bind_any (.lift _ _) fun count y => (h.verifyingKey y).bind_any fun key _ => ?_
  change Tracks view R _ (Run.lift .chain (ChainProof.assemble B.name ..))
    (Run.lift .chain (ChainProof.assemble B'.name ..))
  rw [h.name]
  exact .lift _ _

theorem tracks_formatRun (proof : Groth16.ProofData) :
    Tracks view R x (formatRun ⟨B, chain, rate⟩ proof) (formatRun ⟨B', chain, rate⟩ proof) := by
  have hrest : ∀ y : D × τ, Tracks view R y
      (get >>= fun y => sealRun ⟨B, chain, rate⟩ proof (B.info y.1).circuit.publicCount)
      (get >>= fun y => sealRun ⟨B', chain, rate⟩ proof (B'.info y.1).circuit.publicCount) := by
    intro y
    refine .bind_get ?_
    rw [h.info]
    exact tracks_sealRun h chain rate y proof _
  cases chain with
  | none => exact .bind_any (.fault _) fun _ y => hrest y
  | some c => exact hrest x

theorem tracks_proveRun (inputs : InputMap Value) :
    Tracks view R x (proveRun ⟨B, chain, rate⟩ inputs) (proveRun ⟨B', chain, rate⟩ inputs) := by
  refine (h.prove inputs x).bind_any fun proof y => ?_
  cases chain with
  | none => exact .pure _
  | some c => exact (tracks_formatRun h (some c) rate y proof).bind_any fun _ _ => .pure _

theorem tracks_concludeRun (noir : String) (inputs : InputMap Value) :
    Tracks view R x (concludeRun ⟨B, chain, rate⟩ noir inputs)
      (concludeRun ⟨B', chain, rate⟩ noir inputs) := by
  refine (h.prove inputs x).bind_any fun proof y => ?_
  refine (h.verify proof.proof proof.publicInputs y).bind_any fun verified z => ?_
  cases chain with
  | none => exact .bind_any (.pure none) fun _ _ => .pure _
  | some c =>
      exact ((tracks_formatRun h (some c) rate z proof).map some).bind_any fun _ _ => .pure _

end Watched

end Session

end ArrowCircuit
