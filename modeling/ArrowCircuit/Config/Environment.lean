import ArrowCircuit.Config.Basic
import ArrowCircuit.Text.Blank

/-!
# Settings from the environment

A few environment variables take the place of settings: the paths of the tools, unless they are empty,
and whether their files are kept.
-/

namespace ArrowCircuit

/-- The environment variables. -/
abbrev Environment := List (String × String)

namespace Config

/-- Sets a setting of a section, which is made if it is absent. -/
def setSetting (cfg : Json) (name key : String) (value : Json) : Except Fault Json := do
  let old ← sectionFields cfg name
  let new ← setField old key value
  setField cfg name new

/-- The variables that name tools, and the settings they take the place of. -/
def pathVariables : List (String × String) :=
  [("NARGO_PATH", "nargo_path"), ("BB_PATH", "bb_path"), ("SUNSPOT_PATH", "sunspot_path")]

/-- Whether a word says yes. -/
def saysYes (word : String) : Bool :=
  let t := Text.asciiLower (Text.strip (Text.ofString word))
  ["1", "true", "yes"].any fun yes => t = Text.ofString yes

/-- A configuration with the settings of the environment. -/
def withEnvironment (cfg : Json) (env : Environment) : Except Fault Json := do
  let cfg ← pathVariables.foldlM (fun cfg (name, key) =>
    match env.lookup name with
    | none | some "" => .ok cfg
    | some path => setSetting cfg "cli" key (.str path)) cfg
  match env.lookup "SUNSPOT_KEEP_ARTIFACTS" with
  | none => return cfg
  | some word => setSetting cfg "cli" "keep_artifacts" (.bool (saysYes word))

end Config

end ArrowCircuit
