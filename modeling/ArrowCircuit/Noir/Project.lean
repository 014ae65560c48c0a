import ArrowCircuit.Tool.Workspace

/-!
# Noir projects

A project is a directory with a manifest and the program. Compilation writes the program's artifact to
the project's target directory; execution reads the inputs from a file and writes the witness there.
-/

namespace ArrowCircuit.Noir

/-- A project, by its directory. -/
structure Project where
  root : Path
  deriving DecidableEq, Repr

/-- A compiled program: parts of its artifact, and where that lies. -/
structure Program where
  bytecode : Json
  abi : Json
  artifact : Path
  deriving Repr

namespace Project

open Tool (Toolbox Workspace)

/-- The manifest of a project. -/
def manifest : String :=
  "[package]\nname = \"circuit\"\ntype = \"bin\"\nauthors = [\"\"]\n\n[dependencies]\n"

/-- The directory of what the tools write. -/
def target (p : Project) : Path := p.root.join "target"

/-- The artifact of compilation. -/
def artifact (p : Project) : Path := p.target.join "circuit.json"

/-- The witness of execution. -/
def witness (p : Project) : Path := p.target.join "circuit.gz"

variable {ξ : Type} (T : Toolbox ξ)

/-- A new project for a program. -/
def create (hint source : String) : Run (Workspace ξ) Project := do
  let root ← Workspace.temporary T hint
  Workspace.makeDirectory (root.join "src")
  Workspace.write (root.join "Nargo.toml") (Bytes.ofString manifest)
  Workspace.write ((root.join "src").join "main.nr") (Bytes.ofString source)
  return ⟨root⟩

/-- The program of an artifact. -/
def load (path : Path) : Run (Workspace ξ) Program := do
  Workspace.require path (.programNotFound path.text)
  let content ← Workspace.read path
  match Bytes.toString? content with
  | none => Run.fault (.file (.notText path.text))
  | some text =>
    let artifact ← Run.lift .json (Json.read text)
    match artifact with
    | .object _ =>
      return ⟨(artifact.field? "bytecode").getD (.str ""), (artifact.field? "abi").getD (.object []), path⟩
    | _ => Run.fault .noPart

/-- Compiles a project. -/
def compile (compiler : String) (p : Project) : Run (Workspace ξ) Program := do
  let _ ← Workspace.call T { binary := compiler, arguments := ["compile"], workingDirectory := some p.root }
  load p.artifact

/-- Computes the witness for named inputs. -/
def execute (compiler : String) (p : Project) (inputs : InputMap Value) : Run (Workspace ξ) Path := do
  let text ← Run.lift .toml (Toml.inputs inputs)
  Workspace.write (p.root.join "Prover.toml") (Bytes.ofString text)
  let _ ← Workspace.call T { binary := compiler, arguments := ["execute"], workingDirectory := some p.root }
  Workspace.require p.witness (.witnessNotProduced p.witness.text)
  return p.witness

/-- Removes a project. -/
def remove (p : Project) : Run (Workspace ξ) Unit :=
  Run.ofStep fun w => (.ok (), { w with files := w.files.remove p.root })

end Project

end ArrowCircuit.Noir
