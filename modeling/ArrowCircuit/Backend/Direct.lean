import ArrowCircuit.Backend.Engine
import ArrowCircuit.Backend.System

/-!
# The direct backend

A circuit is lowered to a constraint system, for which an engine makes keys, proofs and decisions. The
keys of a compiled circuit are made once: while it is compiled, or when they are first needed. A failed
attempt leaves the circuit without keys, and keys once made stay.
-/

namespace ArrowCircuit.Direct

/-- The settings of the backend. -/
structure Settings where
  eagerSetup : Bool := true
  bits : Int := 64
  deriving DecidableEq, Repr

/-- The settings of a configuration. -/
def Settings.ofConfig (cfg : Json) : Except Fault Settings := do
  let cfg := if cfg.isTruthy then cfg else .object []
  let eager ← (Config.sectionSetting cfg "groth16" "eager_setup").mapError .config
  let bits ← (Config.sectionSetting cfg "r1cs" "comparison_bits").mapError .config
  let bits ← match bits with
    | some v => (Value.ofJson v).toInt.mapError .value
    | none => .ok 64
  return ⟨(eager.map Json.isTruthy).getD true, bits⟩

/-- A compiled circuit. -/
structure Compiled where
  circuit : Circuit
  noir : String
  system : ConstraintSystem
  keys : Option Groth16.KeyPair := none

/-- What callers see of a compiled circuit. -/
def Compiled.info (c : Compiled) : CircuitInfo :=
  { circuit := c.circuit, backend := Backend.groth16.name, noir := some c.noir,
    sizes := some (c.system.numWitnesses, c.system.constraints.length) }

/-- A source without keys: the circuit is read, lowered and printed. -/
def lowered (settings : Settings) (source : Source) (options : CompileOptions) :
    Except Fault Compiled := do
  let circuit ← source.circuit
  let bits ← (Lowering.bitsOf (options.bits.getD (.int settings.bits))).mapError .bits
  let system ← (circuit.lower { bits }).mapError .lowering
  let noir ← (Noir.program circuit).mapError .noir
  return { circuit, noir, system }

variable {σ : Type} (E : Engine σ)

/-- The keys of the circuit, made if there are none. -/
def ensureKeys : Run (Compiled × σ) Groth16.KeyPair :=
  Run.ofStep fun (c, s) =>
    match c.keys with
    | some keys => (.ok keys, (c, s))
    | none =>
      match (E.call "setup" (E.setup c.system)).exec s with
      | (.ok keys, s) => (.ok keys, ({ c with keys := some keys }, s))
      | (.error f, s) => (.error f, (c, s))

/-- A run of the engine beside a compiled circuit. -/
def onEngine {α : Type} (r : Run σ α) : Run (Compiled × σ) α :=
  r.onPart (·.2) fun s (c, _) => (c, s)

/-- Compiles a source; the keys are made at once if the options or the settings say so. -/
def compile (settings : Settings) (source : Source) (options : CompileOptions) : Run σ Compiled :=
  Run.ofStep fun s =>
    match lowered settings source options with
    | .error f => (.error f, s)
    | .ok c =>
      if options.eagerSetup.getD settings.eagerSetup then
        let (result, (c, s)) := (ensureKeys E).exec (c, s)
        (result.map fun _ => c, s)
      else (.ok c, s)

/-- The witness of the circuit for named inputs. -/
def witness (c : Compiled) (inputs : InputMap Value) : Except Fault Assignment := do
  let (privateValues, publicValues) ← (c.circuit.orderedValues inputs).mapError .inputs
  (c.system.witness .scalar privateValues publicValues).mapError .witness

/-- Proves for named inputs: first the witness, then the keys, then the engine. -/
def prove (inputs : InputMap Value) : Run (Compiled × σ) Groth16.ProofData := do
  let (c, _) ← get
  let w ← Run.lift id (witness c inputs)
  let keys ← ensureKeys E
  onEngine (E.call "prove" (E.prove keys.provingKey c.system w))

/-- Decides on a proof. -/
def verify (proof : Bytes) (inputs : List Value) : Run (Compiled × σ) Bool := do
  let keys ← ensureKeys E
  onEngine (E.call "verify" (E.verify keys.verifyingKey proof inputs))

/-- The backend over an engine. -/
def system (settings : Settings) : ProvingSystem σ Compiled where
  name := Backend.groth16.name
  compile := compile E settings
  info := Compiled.info
  prove := prove E
  verify := verify E
  verifyingKey := do return some (← ensureKeys E).verifyingKey

end ArrowCircuit.Direct
