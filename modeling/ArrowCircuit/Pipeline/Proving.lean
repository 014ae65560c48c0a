import ArrowCircuit.Backend.Direct
import ArrowCircuit.Backend.Honk
import ArrowCircuit.Backend.Sunspot
import ArrowCircuit.Pipeline.Desk
import ArrowCircuit.Pipeline.Record
import ArrowCircuit.Shell.Execution

/-!
# Proving on a desk

The backend of a configuration makes a proof in a session of its own. The library's backend draws on the
randomness of the desk; the others run their tools on the files of the desk.
-/

namespace ArrowCircuit.Desk

open Tool (Toolbox Workspace)

/-- The values that a JSON document supplies for the public and the private inputs. -/
def suppliedValues (data : Json) : Except Fault (Value × Value) :=
  let values (name : String) : Value := ((data.field? name).map Value.ofJson).getD (.list [])
  match data with
  | .object _ => .ok (values "public", values "private")
  | _ => .error .noPart

/-- The tools of the desk: the standard commands, with temporary directories of their own. -/
def toolbox (timeout : Json) : Toolbox Unit where
  executor := Shell.executor (Value.ofJson timeout)
  directoryName hint n := .ofString ("/tmp/" ++ hint ++ Numeral.decimalNat n)

/-- The part of the desk that tools work on. -/
def workspace (d : Desk) : Workspace Unit := { files := d.files, tools := (), directories := d.directories }

/-- The desk with what tools have done. -/
def withWorkspace (w : Workspace Unit) (d : Desk) : Desk :=
  { d with files := w.files, directories := w.directories }

/-- Makes a proof in a new session over a backend, whose state is a part of the desk. -/
def proveWith {σ C : Type} (system : ProvingSystem σ C) (part : Desk → σ) (replace : σ → Desk → Desk)
    (cfg data : Json) (script : String) : Run Desk Proved := do
  let session ← Run.lift id (Session.ofConfig system (cfg.part "chain") cfg)
  let (publicValues, privateValues) ← Run.lift id (suppliedValues data)
  let creation ← (session.create script publicValues privateValues).onPart
    (fun d => ⟨none, part d⟩) fun st d => replace st.world d
  return ⟨system.name, session.chain, creation⟩

/-- Makes a proof with the backend of the configuration. -/
def prove (env : Environment) (cfg data : Json) (script : String) : Run Desk Proved := do
  let backend ← Run.lift .backend
    (Backend.configured env Shell.isInstalled cfg (cfg.part "provider") (cfg.part "chain"))
  match backend with
  | .groth16 =>
    let settings ← Run.lift id (Direct.Settings.ofConfig cfg)
    proveWith (Direct.system (.groth16 Bn254.suite) settings) (·.entropy)
      (fun entropy d => { d with entropy }) cfg data script
  | .ultrahonk =>
    let s ← Run.lift id (Honk.settings cfg)
    proveWith (Honk.system (toolbox s.timeout) s) workspace withWorkspace cfg data script
  | .sunspot =>
    let s ← Run.lift id (Sunspot.settings cfg)
    proveWith (Sunspot.system (toolbox s.timeout) s none) workspace withWorkspace cfg data script

end ArrowCircuit.Desk
