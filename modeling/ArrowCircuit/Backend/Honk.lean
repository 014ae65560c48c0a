import ArrowCircuit.Backend.System
import ArrowCircuit.Noir.Project
import ArrowCircuit.Tool.Settings

/-!
# The UltraHonk backend

A circuit is printed as a Noir program, which one tool compiles and executes and another proves and
verifies. The verification key is written when a proof is first verified. The files that a proof is
read from stay between runs.
-/

namespace ArrowCircuit.Honk

open Tool (Toolbox Workspace)

/-- A compiled circuit; one of another backend has no project. -/
structure Compiled where
  circuit : Circuit
  backend : String := Backend.ultrahonk.name
  noir : Option String := none
  project : Option (Noir.Project × Noir.Program) := none
  key : Option Path := none

/-- What callers see of a compiled circuit. -/
def Compiled.info (c : Compiled) : CircuitInfo := { circuit := c.circuit, backend := c.backend, noir := c.noir }

/-- The settings of a configuration. -/
def settings (cfg : Json) : Except Fault Tool.Settings := Tool.Settings.ofConfig cfg "bb_path" "bb"

variable {ξ : Type} (T : Toolbox ξ) (settings : Tool.Settings)

/-- Compiles a source in a new project. -/
def compile (source : Source) : Run (Workspace ξ) Compiled := do
  let circuit ← Run.lift id source.circuit
  let noir ← Run.lift .noir (Noir.program circuit)
  let project ← Noir.Project.create T "noir-circuit-" noir
  let program ← project.compile T (Tool.Settings.binary settings.compiler)
  return { circuit, noir := some noir, project := some (project, program) }

/-- A run in the workspace beside a compiled circuit. -/
def onWorkspace {α : Type} (r : Run (Workspace ξ) α) : Run (Compiled × Workspace ξ) α :=
  r.onPart (·.2) fun w (c, _) => (c, w)

/-- The project of the circuit. -/
def project : Run (Compiled × Workspace ξ) (Noir.Project × Noir.Program) := do
  match (← get).1.project with
  | some p => return p
  | none => Run.fault .noPart

/-- A call of the prover. -/
def call (arguments : List String) : Tool.Call :=
  { binary := Tool.Settings.binary settings.prover, arguments }

/-- The file of the verification key, written if it was not yet. -/
def ensureKey : Run (Compiled × Workspace ξ) Path := do
  let (c, _) ← get
  match c.key with
  | some key => return key
  | none =>
    let (project, program) ← project
    let key := project.target.join "vk"
    onWorkspace do
      let _ ← Workspace.call T (call settings
        ["write_vk", "-b", program.artifact.text, "-o", project.target.text])
      Workspace.require key (.keyNotProduced key.text)
    modify fun (c, w) => ({ c with key := some key }, w)
    return key

/-- Proves for named inputs. -/
def prove (inputs : InputMap Value) : Run (Compiled × Workspace ξ) Groth16.ProofData := do
  let (c, _) ← get
  let _ ← Run.lift .inputs (c.circuit.orderedValues inputs)
  let (project, program) ← project
  onWorkspace do
    let witness ← project.execute T (Tool.Settings.binary settings.compiler) inputs
    let _ ← Workspace.call T (call settings
      ["prove", "-b", program.artifact.text, "-w", witness.text, "-o", project.target.text])
    let proofPath := project.target.join "proof"
    let inputsPath := project.target.join "public_inputs"
    Workspace.require proofPath (.proofNotProduced "bb" proofPath.text)
    let publicInputs ← if ← Workspace.has inputsPath then
        pure (Wire.inputTexts (← Workspace.read inputsPath))
      else pure []
    return ⟨← Workspace.read proofPath, publicInputs.map Value.str⟩

/-- Decides on a proof. -/
def verify (proof : Bytes) (inputs : List Value) : Run (Compiled × Workspace ξ) Bool := do
  let key ← ensureKey T settings
  let (project, _) ← project
  onWorkspace do
    let dir := project.root.join "verify"
    Workspace.makeDirectory dir
    let proofPath := dir.join "proof"
    let inputsPath := dir.join "public_inputs"
    Workspace.write proofPath proof
    let bytes ← Run.lift .wireInput (Wire.inputBytes inputs)
    Workspace.write inputsPath bytes
    Workspace.accepts T (call settings
      ["verify", "-k", key.text, "-p", proofPath.text, "-i", inputsPath.text])

/-- Removes the project, unless files are kept. -/
def cleanup : Run (Compiled × Workspace ξ) Unit := do
  let (project, _) ← project
  if !settings.keepArtifacts then onWorkspace project.remove

/-- The backend over a toolbox. -/
def system : ProvingSystem (Workspace ξ) Compiled where
  name := Backend.ultrahonk.name
  compile source _ := compile T settings source
  info := Compiled.info
  prove := prove T settings
  verify := verify T settings
  verifyingKey := pure none

end ArrowCircuit.Honk
