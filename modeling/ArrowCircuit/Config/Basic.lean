import ArrowCircuit.Json.Reader
import ArrowCircuit.Value.Basic

/-!
# Configuration

A configuration is a JSON object whose fields are settings or sections of settings. One is laid over
another section by section: a setting replaces a setting, and a section is laid over a section. What
is not set has its default where it is used.
-/

namespace ArrowCircuit.Config

/-- The configuration where none is given. -/
def default : Json :=
  .object [
    ("provider", .str "groth16"),
    ("chain", .null),
    ("export_ir_filename", .str "circuit.ir.json"),
    ("export_noir_filename", .str "circuit.nr"),
    ("export_r1cs_filename", .str "r1cs.json"),
    ("export_proof_filename", .str "proof.json"),
    ("max_top_constraints", .nat 20),
    ("log_level", .str "INFO"),
    ("r1cs", .object [("comparison_bits", .nat 64)]),
    ("groth16", .object [("eager_setup", .bool true)]),
    ("cli", .object [("nargo_path", .str "nargo"), ("bb_path", .str "bb"),
      ("sunspot_path", .str "sunspot"), ("timeout_s", .nat 120), ("keep_artifacts", .bool false)]),
    ("solana", .object [("lamports_per_byte", .nat 6960), ("network", .str "devnet")])]

/-- Why a configuration cannot be used. -/
inductive Fault where
  /-- A value that is no object stands where a section is read. -/
  | notSection
  /-- A value of the named kind stands where a field is set. -/
  | notAssignable (typeName : String)
  deriving DecidableEq, Repr

/-- The wording of a fault. -/
def Fault.message : Fault → String
  | .notSection => "not a section"
  | .notAssignable "list" => "list indices must be integers or slices, not str"
  | .notAssignable name => "'" ++ name ++ "' object does not support item assignment"

/-- The name of a JSON value's kind in messages. -/
def typeName (v : Json) : String := (Value.ofJson v).typeName

/-- Sets a field of an object. -/
def setField (cfg : Json) (name : String) (value : Json) : Except Fault Json :=
  match cfg with
  | .object fields => .ok (.object (Json.insertField name value fields))
  | v => .error (.notAssignable (typeName v))

/-- Lays one section over another. -/
def overlay (base data : List (String × Json)) : List (String × Json) :=
  data.foldl (fun fields f => Json.insertField f.1 f.2 fields) base

/-- Lays one field over a configuration. -/
def mergeField (base : Json) (name : String) (value : Json) : Except Fault Json :=
  match value, base with
  | .object new, .object fields =>
    match base.field? name with
    | some (.object old) => .ok (.object (Json.insertField name (.object (overlay old new)) fields))
    | _ => setField base name value
  | .object _, _ => .error .notSection
  | value, base => setField base name value

/-- Lays a configuration over another. -/
def merge (base data : Json) : Except Fault Json :=
  match data with
  | .object fields => fields.foldlM (fun cfg f => mergeField cfg f.1 f.2) base
  | _ => .error .notSection

/-- The fields of a section; none if it is absent. -/
def sectionFields (cfg : Json) (name : String) : Except Fault Json :=
  match cfg with
  | .object _ => .ok ((cfg.field? name).getD (.object []))
  | _ => .error .notSection

/-- A setting at the top, if it is set. -/
def setting (cfg : Json) (name : String) : Except Fault (Option Json) :=
  match cfg with
  | .object _ => .ok (cfg.field? name)
  | _ => .error .notSection

/-- A setting of a section, if it is set. -/
def sectionSetting (cfg : Json) (name key : String) : Except Fault (Option Json) := do
  setting (← sectionFields cfg name) key

end ArrowCircuit.Config
