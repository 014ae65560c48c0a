import ArrowCircuit.CommandLine.Arguments
import ArrowCircuit.Pipeline.Artifacts

/-!
# The program

The program reads its arguments, puts the configuration together from the defaults, a file, the
environment and the arguments, in this order, and runs the pipeline. Faults of circuits end it with a
complaint; other faults are left to the caller.
-/

namespace ArrowCircuit.CommandLine

/-- How the program ends. -/
inductive Ending where
  | done
  | help
  | misuse
  | inputNotFound (path : String)
  | failed (fault : Fault)
  /-- A proof was made that is not valid. -/
  | rejected
  deriving Repr

/-- The exit code of an ending. -/
def Ending.code : Ending → Nat
  | .done | .help => 0
  | .failed _ | .rejected => 1
  | .misuse | .inputNotFound _ => 2

/-- What an ending complains of. -/
def Ending.complaint? : Ending → Option String
  | .inputNotFound path => some ("input file not found: " ++ path)
  | .failed fault => some fault.message
  | _ => none

/-- The lines that an ending complains with; only the first of a message is marked as an error. -/
def Ending.complaintLines (e : Ending) : List String :=
  match e.complaint? with
  | none => []
  | some text => ("ERROR: " ++ text).splitOn "\n"

/-- The lines that are marked as errors. -/
def Ending.errorLines (e : Ending) : List String := e.complaintLines.filter (·.startsWith "ERROR: ")

/-- The configuration from a file; the defaults if none is named. -/
def loadConfig (path : String) : Run Desk Json := do
  if path = "" then return Config.default
  match ← Desk.readJson? (.ofString path) with
  | none => Run.fault (.configNotFound path)
  | some data => Run.lift .config (Config.merge Config.default data)

/-- The configuration of a run. -/
def configuration (env : Environment) (a : Arguments) : Run Desk Json := do
  let cfg ← loadConfig ((a.value? .config).getD "")
  let cfg ← Run.lift .config (Config.withEnvironment cfg env)
  let replace (cfg : Json) (name : String) (s : Setting) : Run Desk Json :=
    match a.value? s with
    | none => pure cfg
    | some value => Run.lift .config (Config.setField cfg name (.str value))
  replace (← replace cfg "provider" .provider) "chain" .chain

/-- A run whose faults of circuits are an ending. -/
def reporting (r : Run Desk Ending) : Run Desk Ending :=
  Run.ofStep fun d =>
    match r.exec d with
    | (.error f, d) => (if f.isCircuit then .ok (.failed f) else .error f, d)
    | ended => ended

/-- Carries out the arguments. -/
def carryOut (o : Occasion) (a : Arguments) : Run Desk Ending := do
  let cfg ← configuration o.environment a
  let input := Path.ofString ((a.value? .input).getD "")
  if !(← get).files.has input then return .inputNotFound input.text
  let out := Path.ofString ((a.value? .outDir).getD "out")
  Desk.makeDirectories out
  let request : Pipeline.Request :=
    { input := input.text, outDir := out.text, config := cfg, quiet := a.quiet, inputs := a.value? .inputs }
  reporting do
    let artifacts ← request.run o
    return if artifacts.proof.any fun (_, verified) => !verified then .rejected else .done

/-- Runs the program. -/
def run (o : Occasion) (args : List String) : Run Desk Ending :=
  match Arguments.ofList args with
  | .ok a => carryOut o a
  | .error .help => pure .help
  | .error .misuse => pure .misuse

end ArrowCircuit.CommandLine
