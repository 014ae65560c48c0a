import ArrowCircuit.Circuit.Tree
import ArrowCircuit.Pipeline.Proving
import ArrowCircuit.Pipeline.Summary

/-!
# Artifacts

The pipeline turns a script into artifacts: the circuit in JSON, its Noir program, its constraint system
if it can be lowered, and, where inputs are given, the record of a proof. Each artifact is written as
soon as it is made, so that a later fault leaves the earlier ones.
-/

namespace ArrowCircuit.Pipeline

/-- What the pipeline is asked to do. -/
structure Request where
  input : String
  outDir : String := "out"
  config : Json := .object []
  quiet : Bool := false
  /-- The file with the values for a proof; without one, none is made. -/
  inputs : Option String := none

/-- A request in JSON. -/
def Request.ofJson (v : Json) : Except Fault Request :=
  let path (v : Json) : Except Fault String :=
    match v with
    | .text t => .ok (Text.toStr t)
    | v => .error (.pathKind (Config.typeName v))
  do
    let input ← path (v.part "input_path")
    let outDir ← path ((v.field? "out_dir").getD (.str "out"))
    let inputs ← if (v.part "inputs_path").isTruthy then some <$> path (v.part "inputs_path") else pure none
    return { input, outDir, config := v.part "config", quiet := (v.part "quiet").isTruthy, inputs }

/-- The artifacts that were written, by their paths. -/
structure Artifacts where
  circuit : Path
  noir : Path
  system : Option Path := none
  /-- The record of a proof, and whether the proof was verified. -/
  proof : Option (Path × Bool) := none

/-- The artifacts in JSON. -/
def Artifacts.toJson (a : Artifacts) : Json :=
  .object ([("ir", .str a.circuit.text), ("noir", .str a.noir.text)] ++
    (a.system.map fun p => ("r1cs", Json.str p.text)).toList ++
    match a.proof with
    | none => []
    | some (p, verified) => [("proof", .str p.text), ("verified", .bool verified)])

/-- The path of an artifact, whose name is a setting. -/
def artifactPath (cfg : Json) (out : Path) (key fallback : String) : Except Fault Path :=
  match (cfg.field? key).getD (.str fallback) with
  | .text t => .ok (out.join (Text.toStr t))
  | v => .error (.nameKind (Config.typeName v))

/-- The constraint system of a circuit. One that cannot be lowered is a fault only for the backend that
needs it. -/
def systemOf? (cfg : Json) (c : Circuit) : Except Fault (Option ConstraintSystem) := do
  let bits ← (Config.sectionSetting cfg "r1cs" "comparison_bits").mapError .config
  let bits ← (Lowering.bitsOf (Value.ofJson (bits.getD (.nat Lowering.defaultBits)))).mapError .bits
  match c.lower { bits } with
  | .ok s => return some s
  | .error f =>
    let provider := (cfg.field? "provider").getD (.str Backend.groth16.name)
    if Fault.family (.lowering f) = .feature ∧ provider.string? ≠ some Backend.groth16.name then return none
    throw (.lowering f)

/-- Prints the summary of a constraint system. -/
def printSummary (cfg : Json) (s : ConstraintSystem) : Run Desk Unit := do
  let bound := (cfg.field? "max_top_constraints").getD (.nat 20)
  let shown ← Run.lift .numeral (Value.ofJson bound).display
  Desk.printAll (Summary.heading s (Text.toStr shown))
  Desk.printAll (Summary.body (← Run.lift id (Bound.apply bound s.constraints)))

/-- Makes a proof for the values of a file and writes its record. -/
def recordProof (o : Occasion) (cfg : Json) (quiet : Bool) (out : Path) (script inputs : String) :
    Run Desk (Path × Bool) := do
  match ← Desk.readJson? (.ofString inputs) with
  | none | some .null => Run.fault (.inputsNotFound inputs)
  | some data =>
    let proved ← Desk.prove o.environment cfg data script
    let record ← Run.lift id (Record.toJson o cfg script proved)
    let path ← Run.lift id (artifactPath cfg out "export_proof_filename" "proof.json")
    Desk.writeDocument path record
    let creation := proved.creation
    if !quiet then
      Desk.print ("[runner] Proof (" ++ Numeral.decimalNat creation.proof.proof.length ++
        " bytes, verified=" ++ (if creation.verified then "True" else "False") ++ ") written to: " ++ path.text)
    return (path, creation.verified)

/-- Carries out a request. -/
def Request.run (o : Occasion) (r : Request) : Run Desk Artifacts := do
  let data := if r.config.isTruthy then r.config else .object []
  let cfg ← Run.lift .config (Config.merge Config.default data)
  let input := Path.ofString r.input
  let out := Path.ofString r.outDir
  Desk.makeDirectories out
  if !r.quiet then Desk.print ("[runner] Parsing " ++ input.text ++ " ...")
  let script ← Desk.readText input
  let circuit ← Run.lift .script (Circuit.parse script)
  let circuitPath ← Run.lift id (artifactPath cfg out "export_ir_filename" "circuit.ir.json")
  Desk.writeDocument circuitPath (circuit.tree Circuit.plainLiteral)
  let noirPath ← Run.lift id (artifactPath cfg out "export_noir_filename" "circuit.nr")
  Desk.writeText noirPath (← Run.lift .noir (Noir.program circuit))
  let system ← Run.lift id (systemOf? cfg circuit)
  let systemPath ← system.mapM fun s => do
    let path ← Run.lift id (artifactPath cfg out "export_r1cs_filename" "r1cs.json")
    Desk.writeDocument path s.toJson
    return path
  if !r.quiet then
    Desk.print ("[runner] Wrote IR to: " ++ circuitPath.text)
    Desk.print ("[runner] Wrote Noir source to: " ++ noirPath.text)
    system.forM (printSummary cfg)
  let inputs := r.inputs.filter (· ≠ "")
  let proof ← inputs.mapM (recordProof o cfg r.quiet out script)
  return { circuit := circuitPath, noir := noirPath, system := systemPath, proof }

end ArrowCircuit.Pipeline
