import ArrowCircuit.Backend.System
import ArrowCircuit.Noir.Project
import ArrowCircuit.Tool.Settings

/-!
# The Sunspot backend

A circuit is printed as a Noir program; one tool compiles and executes it, another turns the artifact
into a constraint system with keys, and proves and verifies with them. The backend can also be given
finished files, and then compiles nothing.
-/

namespace ArrowCircuit.Sunspot

open Tool (Toolbox Workspace)

/-- Where the files of a circuit lie. -/
structure Paths where
  workDirectory : Path
  artifact : Path
  system : Path
  provingKey : Path
  verifyingKey : Path
  proof : Path
  publicWitness : Path
  deriving DecidableEq, Repr

/-- The paths beside an artifact, with the keys at other places if they are given. -/
def Paths.beside (artifact workDirectory : Path) (provingKey verifyingKey : Option Path) : Paths :=
  let base := artifact.parent
  { workDirectory, artifact, system := base.join "circuit.ccs",
    provingKey := provingKey.getD (base.join "circuit.pk"),
    verifyingKey := verifyingKey.getD (base.join "circuit.vk"),
    proof := base.join "circuit.proof", publicWitness := base.join "circuit.pw" }

/-- The paths of finished files. The project's root is above a directory named `target`. -/
def Paths.ofFinished (artifact provingKey verifyingKey : Path) : Paths :=
  let dir := artifact.parent
  Paths.beside artifact (if dir.name = "target" then dir.parent else dir) (some provingKey)
    (some verifyingKey)

/-- A compiled circuit; one of another backend has no paths. -/
structure Compiled where
  circuit : Circuit
  backend : String := Backend.sunspot.name
  noir : Option String := none
  paths : Option Paths := none

/-- What callers see of a compiled circuit. -/
def Compiled.info (c : Compiled) : CircuitInfo := { circuit := c.circuit, backend := c.backend, noir := c.noir }

/-- The settings of a configuration. -/
def settings (cfg : Json) : Except Fault Tool.Settings :=
  Tool.Settings.ofConfig cfg "sunspot_path" "sunspot"

variable {ξ : Type} (T : Toolbox ξ) (settings : Tool.Settings) (finished : Option Paths)

/-- Calls the prover. -/
def call (arguments : List String) : Run (Workspace ξ) Unit := do
  let _ ← Workspace.call T { binary := Tool.Settings.binary settings.prover, arguments }

/-- Compiles a source in a new project. -/
def compile (source : Source) : Run (Workspace ξ) Compiled := do
  if finished.isSome then Run.fault (.toolchain .alreadyCompiled)
  let circuit ← Run.lift id source.circuit
  let noir ← Run.lift .noir (Noir.program circuit)
  let project ← Noir.Project.create T "sunspot-circuit-" noir
  let program ← project.compile T (Tool.Settings.binary settings.compiler)
  let paths := Paths.beside program.artifact project.root none none
  call T settings ["compile", paths.artifact.text]
  call T settings ["setup", paths.system.text]
  for p in [paths.system, paths.provingKey, paths.verifyingKey] do
    Workspace.require p (.artifactNotProduced p.text)
  return { circuit, noir := some noir, paths := some paths }

/-- A circuit over finished files. -/
def ofFinished (circuit : Circuit) : Except Fault Compiled :=
  match finished with
  | some paths => .ok { circuit, paths := some paths }
  | none => .error (.toolchain .noCompiledFiles)

/-- The paths of a circuit, or else the finished ones. -/
def pathsOf (c : Option Compiled) : Except Fault Paths :=
  match c.bind Compiled.paths, finished with
  | some paths, _ => .ok paths
  | none, some paths => .ok paths
  | none, none => .error (.toolchain .otherCircuit)

/-- Proves for named inputs; without a circuit, they are not checked. -/
def prove (c : Option Compiled) (inputs : InputMap Value) : Run (Workspace ξ) Groth16.ProofData := do
  if let some c := c then
    let _ ← Run.lift .inputs (c.circuit.orderedValues inputs)
  let paths ← Run.lift id (pathsOf finished c)
  let project : Noir.Project := ⟨paths.workDirectory⟩
  let witness ← project.execute T (Tool.Settings.binary settings.compiler) inputs
  call T settings
    ["prove", paths.artifact.text, witness.text, paths.system.text, paths.provingKey.text]
  Workspace.require paths.proof (.proofNotProduced "sunspot" paths.proof.text)
  let publicInputs ← if ← Workspace.has paths.publicWitness then
      Run.lift .wireInput (Wire.decodeWitness (← Workspace.read paths.publicWitness))
    else pure []
  return ⟨← Workspace.read paths.proof, publicInputs.map Value.str⟩

/-- Decides on a proof. -/
def verify (c : Option Compiled) (proof : Bytes) (inputs : List Value) : Run (Workspace ξ) Bool := do
  let paths ← Run.lift id (pathsOf finished c)
  let dir := paths.workDirectory.join "verify"
  Workspace.makeDirectory dir
  let proofPath := dir.join "circuit.proof"
  let witnessPath := dir.join "circuit.pw"
  Workspace.write proofPath proof
  let bytes ← Run.lift .wireInput (Wire.encodeWitness inputs)
  Workspace.write witnessPath bytes
  Workspace.accepts T
    { binary := Tool.Settings.binary settings.prover
      arguments := ["verify", paths.verifyingKey.text, proofPath.text, witnessPath.text] }

/-- The verifying key. -/
def verifyingKey (c : Option Compiled) : Run (Workspace ξ) Bytes := do
  let paths ← Run.lift id (pathsOf finished c)
  Workspace.read paths.verifyingKey

/-- Removes the project of a circuit, unless files are kept; finished files are never removed. -/
def cleanup (c : Option Compiled) : Run (Workspace ξ) Unit := do
  if settings.keepArtifacts then return
  match c.bind Compiled.paths with
  | none => Run.fault .noPart
  | some paths =>
    if some paths ≠ finished then (Noir.Project.mk paths.workDirectory).remove

/-- A run in the workspace that knows the circuit. -/
def withCircuit {α : Type} (r : Option Compiled → Run (Workspace ξ) α) :
    Run (Compiled × Workspace ξ) α :=
  Run.ofStep fun (c, w) =>
    let (result, w) := (r (some c)).exec w
    (result, (c, w))

/-- The backend over a toolbox. -/
def system : ProvingSystem (Workspace ξ) Compiled where
  name := Backend.sunspot.name
  compile source _ := compile T settings finished source
  info := Compiled.info
  prove inputs := withCircuit fun c => prove T settings finished c inputs
  verify proof inputs := withCircuit fun c => verify T settings finished c proof inputs
  verifyingKey := withCircuit fun c => some <$> verifyingKey finished c

end ArrowCircuit.Sunspot
