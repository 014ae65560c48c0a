import ArrowCircuit.Fault

/-!
# Runs

A run has a result or a fault, and changes a state; what it has changed before a fault stays changed.
A run on a part of a state is also one on the whole.
-/

namespace ArrowCircuit

/-- A computation on a state that may end in a fault. -/
abbrev Run (σ α : Type) := ExceptT Fault (StateM σ) α

namespace Run

variable {σ τ α ε : Type}

/-- The run of a function of the state. -/
def ofStep (step : σ → Except Fault α × σ) : Run σ α := ExceptT.mk step

/-- The result and the state in which a run ends. -/
def exec (r : Run σ α) (s : σ) : Except Fault α × σ := ExceptT.run r s

/-- A result that does not depend on the state. -/
def lift (cause : ε → Fault) (r : Except ε α) : Run σ α := ofStep fun s => (r.mapError cause, s)

/-- The run that ends in a fault. -/
def fault (f : Fault) : Run σ α := ofStep fun s => (.error f, s)

/-- A run on a part of the state. -/
def onPart (part : σ → τ) (replace : τ → σ → σ) (r : Run τ α) : Run σ α :=
  ofStep fun s =>
    let (result, t) := r.exec (part s)
    (result, replace t s)

end Run

end ArrowCircuit
