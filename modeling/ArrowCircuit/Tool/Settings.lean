import ArrowCircuit.Fault

/-!
# Settings of tools

The part of the configuration that says where the tools are, how long they may take, and whether their
files are kept.
-/

namespace ArrowCircuit.Tool

/-- The settings of the two tools of a backend: the compiler and the prover. -/
structure Settings where
  compiler : Json
  prover : Json
  timeout : Json
  keepArtifacts : Bool
  deriving Repr

namespace Settings

/-- The settings of a configuration; the prover has its own key and its usual name. -/
def ofConfig (cfg : Json) (proverKey proverName : String) : Except Fault Settings :=
  let cfg := if cfg.isTruthy then cfg else .object []
  let get (key : String) (fallback : Json) : Except Fault Json := do
    let v ← (Config.sectionSetting cfg "cli" key).mapError .config
    return v.getD fallback
  do
    let timeout ← get "timeout_s" (.nat 120)
    let prover ← get proverKey (.str proverName)
    let compiler ← get "nargo_path" (.str "nargo")
    let keep ← get "keep_artifacts" (.bool false)
    return ⟨compiler, prover, timeout, keep.isTruthy⟩

/-- The name under which a tool is called. -/
def binary (path : Json) : String := (path.string?).getD ""

end Settings

end ArrowCircuit.Tool
