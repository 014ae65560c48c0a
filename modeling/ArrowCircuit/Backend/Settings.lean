import ArrowCircuit.Backend.Direct
import ArrowCircuit.Backend.Honk
import ArrowCircuit.Backend.Sunspot

/-!
# Settings of the backends

The settings that a configuration gives to each backend, in JSON.
-/

namespace ArrowCircuit.Backend

/-- The settings of a backend with tools in JSON. -/
def toolSettingsJson (proverKey : String) (s : Tool.Settings) : List (String × Json) :=
  [("keep_artifacts", .bool s.keepArtifacts), (proverKey, s.prover), ("nargo_path", s.compiler),
    ("timeout_s", s.timeout)]

/-- The settings of a backend in JSON, with its name. -/
def settingsJson (cfg : Json) (b : Backend) : Except Fault (List (String × Json)) := do
  let settings ← match b with
    | .groth16 => do
      let s ← Direct.Settings.ofConfig cfg
      pure [("eager_setup", Json.bool s.eagerSetup), ("comparison_bits", Json.int s.bits)]
    | .ultrahonk => do pure (toolSettingsJson "bb_path" (← Honk.settings cfg))
    | .sunspot => do pure (toolSettingsJson "sunspot_path" (← Sunspot.settings cfg))
  return ("name", .str b.name) :: settings

end ArrowCircuit.Backend
