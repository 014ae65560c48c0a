import ArrowCircuit.Backend.Direct
import ArrowCircuit.Proofs.Run

/-!
# Records of engine calls

To say what happens to the keys of each circuit, circuits are numbered as they are compiled, and the
calls of the engine are recorded with the number of the circuit for which they are made
(`Engine.recording`).  Nothing else changes: seen without its record, the backend is the direct one.

What the calls of one circuit look like is said of their list alone (`Life`): a call finds the keys that
the calls before it have made, and a setup is called only where there are none.
-/

namespace ArrowCircuit

open Groth16

/-! ## Calls -/

/-- A call of an engine with its result. -/
inductive Call where
  | setup (system : ConstraintSystem) (result : Except Fault KeyPair)
  | prove (key : Bytes) (system : ConstraintSystem) (witness : Assignment)
      (result : Except Fault ProofData)
  | verify (key proof : Bytes) (inputs : List Value) (result : Except Fault Bool)

namespace Call

/-- The keys that a call makes: those of a setup that succeeds. -/
def keys? : Call → Option KeyPair
  | .setup _ (.ok keys) => some keys
  | _ => none

/-- The keys that calls have made: those of the first setup that succeeded. -/
def firstKeys (calls : List Call) : Option KeyPair := calls.findSome? keys?

/-- A call as it may be made for a circuit with this system and these keys: a setup if there are no
keys, a proof with the proving key, and a decision with the verifying key. -/
def Suits (system : ConstraintSystem) (keys : Option KeyPair) : Call → Prop
  | .setup s _ => s = system ∧ keys = none
  | .prove key s _ _ => s = system ∧ ∃ k, keys = some k ∧ key = k.provingKey
  | .verify key _ _ _ => ∃ k, keys = some k ∧ key = k.verifyingKey

/-- The life of a circuit: each call suits the keys that the calls before it have made. -/
def Life (system : ConstraintSystem) (calls : List Call) : Prop :=
  ∀ before call later, calls = before ++ call :: later → call.Suits system (firstKeys before)

variable {system : ConstraintSystem} {calls : List Call} {call : Call}

theorem firstKeys_append (calls more : List Call) :
    firstKeys (calls ++ more) = (firstKeys calls).or (firstKeys more) :=
  List.findSome?_append

/-- Keys once made stay. -/
theorem firstKeys_of_prefix {more : List Call} {keys : KeyPair} (h : calls <+: more)
    (hkeys : firstKeys calls = some keys) : firstKeys more = some keys := by
  obtain ⟨rest, rfl⟩ := h
  rw [firstKeys_append, hkeys, Option.some_or]

theorem firstKeys_concat_of_none (hcall : call.keys? = none) :
    firstKeys (calls ++ [call]) = firstKeys calls := by
  have hsingle : firstKeys [call] = none := by simp [firstKeys, hcall]
  rw [firstKeys_append, hsingle, Option.or_none]

theorem life_nil (system : ConstraintSystem) : Life system [] := by
  intro before call later h
  simp at h

theorem Life.concat (h : Life system calls) (hcall : call.Suits system (firstKeys calls)) :
    Life system (calls ++ [call]) := by
  intro before c later hsplit
  -- the call is the last one, or lies among the earlier ones
  rcases List.eq_nil_or_concat later with rfl | ⟨later, last, rfl⟩
  · obtain ⟨rfl, hc⟩ := List.append_inj' hsplit rfl
    obtain rfl := List.cons.inj hc |>.1
    exact hcall
  · rw [List.concat_eq_append, ← List.cons_append, ← List.append_assoc] at hsplit
    exact h before c later (List.append_inj' hsplit rfl).1

end Call

/-! ## Records -/

/-- The number of circuits so far, and the calls in their order, each with the number of the circuit for
which it was made. -/
structure Record where
  count : Nat := 0
  calls : List (Nat × Call) := []

namespace Record

/-- The calls made for a circuit. -/
def callsOf (r : Record) (n : Nat) : List Call :=
  (r.calls.filter fun entry => entry.1 == n).map fun entry => entry.2

/-- Adds a call. -/
def add (r : Record) (n : Nat) (call : Call) : Record := { r with calls := r.calls ++ [(n, call)] }

theorem callsOf_add (r : Record) (n : Nat) (call : Call) :
    (r.add n call).callsOf n = r.callsOf n ++ [call] := by
  simp [callsOf, add]

theorem callsOf_add_of_ne (r : Record) {n m : Nat} (h : m ≠ n) (call : Call) :
    (r.add n call).callsOf m = r.callsOf m := by
  simp [callsOf, add, h.symm]

end Record

/-! ## Recorded engines -/

variable {σ α : Type}

/-- A run with its result recorded as a call. -/
def Run.recorded (n : Nat) (call : Except Fault α → Call) (r : Run σ α) : Run (σ × Record) α :=
  Run.ofStep fun w => ((r.exec w.1).1, ((r.exec w.1).2, w.2.add n (call (r.exec w.1).1)))

theorem Run.exec_recorded (n : Nat) (call : Except Fault α → Call) (r : Run σ α) (s : σ)
    (record : Record) :
    (r.recorded n call).exec (s, record) =
      ((r.exec s).1, ((r.exec s).2, record.add n (call (r.exec s).1))) :=
  rfl

/-- An engine that records its calls as made for the circuit with a number. -/
def Engine.recording (E : Engine σ) (n : Nat) : Engine (σ × Record) where
  name := E.name
  setup system := (E.setup system).recorded n (.setup system)
  prove key system witness := (E.prove key system witness).recorded n (.prove key system witness)
  verify key proof inputs := (E.verify key proof inputs).recorded n (.verify key proof inputs)

end ArrowCircuit
