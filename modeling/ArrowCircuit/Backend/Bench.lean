import ArrowCircuit.Backend.Honk
import ArrowCircuit.Backend.Sunspot

/-!
# Tool backends on the bench

The backends that drive tools, seen alike: they are used step by step with a current circuit, which may
be missing or come from another backend.
-/

namespace ArrowCircuit

open Tool (Toolbox Workspace)

/-- The steps of a backend with tools. -/
structure Bench (ξ C : Type) where
  compile : Source → Run (Workspace ξ) C
  /-- A circuit over finished files. -/
  finished : Circuit → Except Fault C
  /-- A circuit of another backend. -/
  foreign : Circuit → C
  prove : InputMap Value → Run (Option C × Workspace ξ) Groth16.ProofData
  verify : Bytes → List Value → Run (Option C × Workspace ξ) Bool
  verifyingKey : Run (Option C × Workspace ξ) (Option Bytes)
  cleanup : Run (Option C × Workspace ξ) Unit
  /-- What is shown of a compiled circuit. -/
  describe : C → Json

namespace Bench

variable {ξ C α : Type}

/-- A run with the current circuit, which has to be there. -/
def withCircuit (r : Run (C × Workspace ξ) α) : Run (Option C × Workspace ξ) α :=
  Run.ofStep fun (c, w) =>
    match c with
    | none => (.error .noPart, (c, w))
    | some c =>
      let (result, (c, w)) := r.exec (c, w)
      (result, (some c, w))

/-- A run that may see the current circuit and does not change it. -/
def besideCircuit (r : Option C → Run (Workspace ξ) α) : Run (Option C × Workspace ξ) α :=
  Run.ofStep fun (c, w) =>
    let (result, w) := (r c).exec w
    (result, (c, w))

/-- What is shown of a compiled circuit of any backend. -/
def describeInfo (i : CircuitInfo) : List (String × Json) :=
  [("backend", .str i.backend), ("noir", (i.noir.map Json.str).getD .null),
    ("num_public_inputs", .nat i.circuit.publicCount)]

variable (T : Toolbox ξ) (settings : Tool.Settings)

/-- The UltraHonk backend. -/
def honk : Bench ξ Honk.Compiled where
  compile := Honk.compile T settings
  finished _ := .error .noPart
  foreign circuit := { circuit, backend := "other" }
  prove inputs := withCircuit (Honk.prove T settings inputs)
  verify proof inputs := withCircuit (Honk.verify T settings proof inputs)
  verifyingKey := pure none
  cleanup := withCircuit (Honk.cleanup settings)
  describe c :=
    let program := match c.project with
      | some (_, p) =>
        [("bytecode", p.bytecode), ("abi", p.abi), ("artifact", Json.str p.artifact.text)]
      | none => []
    .object (describeInfo c.info ++ program)

/-- The paths of a circuit in JSON. -/
def pathsJson (p : Sunspot.Paths) : Json :=
  .object [("work_dir", .str p.workDirectory.text), ("circuit_json", .str p.artifact.text),
    ("ccs", .str p.system.text), ("pk", .str p.provingKey.text), ("vk", .str p.verifyingKey.text),
    ("proof", .str p.proof.text), ("public_witness", .str p.publicWitness.text)]

/-- The Sunspot backend. -/
def sunspot (finished : Option Sunspot.Paths) : Bench ξ Sunspot.Compiled where
  compile := Sunspot.compile T settings finished
  finished := Sunspot.ofFinished finished
  foreign circuit := { circuit, backend := "other" }
  prove inputs := besideCircuit fun c => Sunspot.prove T settings finished c inputs
  verify proof inputs := besideCircuit fun c => Sunspot.verify T settings finished c proof inputs
  verifyingKey := besideCircuit fun c => some <$> Sunspot.verifyingKey finished c
  cleanup := besideCircuit fun c => Sunspot.cleanup settings finished c
  describe c := .object (describeInfo c.info ++ [("paths", (c.paths.map pathsJson).getD .null)])

end Bench

end ArrowCircuit
