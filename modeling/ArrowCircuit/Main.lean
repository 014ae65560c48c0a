import ArrowCircuit.CommandLine.Program
import ArrowCircuit.Pipeline.Instant

/-!
# Command line

Reads the files that the arguments name, runs the program on them, and puts what it wrote and printed
where it belongs.
-/

namespace ArrowCircuit.CommandLine

/-- How the program is called. -/
def usage : String :=
  "usage: arrowcircuit [-h] --input INPUT [--out-dir OUT_DIR] [--config CONFIG] [--inputs INPUTS]\n" ++
  "                    [--provider groth16|ultrahonk|sunspot] [--chain solana] [--quiet] [--verbose]"

/-- The variables of the environment that the program looks at. -/
def variableNames : List String :=
  ["NARGO_PATH", "BB_PATH", "SUNSPOT_PATH", "SUNSPOT_KEEP_ARTIFACTS", "BACKEND_AVAILABLE"]

/-- Those variables that are set. -/
def readEnvironment : IO Environment :=
  variableNames.filterMapM fun name => do return (← IO.getEnv name).map (name, ·)

/-- Adds a file to the tree, if it can be read. -/
def loadFile (files : FileTree) (path : String) : IO FileTree := do
  try
    let bytes ← IO.FS.readBinFile path
    return files.store (.ofString path) bytes.toList
  catch _ => return files

/-- The files that the arguments name. -/
def loadFiles (a : Arguments) : IO FileTree :=
  ([Setting.input, .config, .inputs].filterMap a.value?).foldlM loadFile {}

/-- A random number of 64 bytes. -/
def randomNumber : IO Int := do
  return Int.ofNat (Bytes.toNat (← IO.getRandomBytes 64).toList)

/-- The seconds since the start of 1970, by the clock of the file system. -/
def currentSeconds : IO Nat := do
  let (_, path) ← IO.FS.createTempFile
  let time := (← path.metadata).modified
  IO.FS.removeFile path
  return time.sec.toNat

/-- Writes the files that were not there before. -/
def storeFiles (before after : FileTree) : IO Unit :=
  after.entries.forM fun (names, node) => do
    let path := "/".intercalate names
    match node with
    | .directory => IO.FS.createDirAll path
    | .file content =>
      if before.lookup names ≠ some node then IO.FS.writeBinFile path ⟨content.toArray⟩

/-- Runs the program on the files that the arguments name. -/
def runOnFiles (args : List String) : IO UInt32 := do
  let files ← match Arguments.ofList args with
    | .ok a => loadFiles a
    | .error _ => pure {}
  let draws ← (List.replicate 16 ()).mapM fun _ => randomNumber
  let occasion : Occasion :=
    { environment := ← readEnvironment, createdAt := Instant.text (← currentSeconds) }
  let (result, desk) := (run occasion args).exec { files, entropy := .cycle draws }
  storeFiles files desk.files
  IO.print desk.output
  match result with
  | .error fault =>
    IO.eprintln fault.message
    return 1
  | .ok ending =>
    if let some complaint := ending.complaint? then IO.eprintln ("ERROR: " ++ complaint)
    match ending with
    | .help => IO.println usage
    | .misuse => IO.eprintln usage
    | _ => pure ()
    return ending.code.toUInt32

end ArrowCircuit.CommandLine

/-- The entry point. -/
def main (args : List String) : IO UInt32 := ArrowCircuit.CommandLine.runOnFiles args
