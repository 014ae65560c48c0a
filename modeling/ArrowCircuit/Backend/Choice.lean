import ArrowCircuit.Config.Environment
import ArrowCircuit.Wording

/-!
# Choice of a backend

Three backends make proofs: one in this library, and two that drive command-line tools. The chain only
takes proofs of the first. A backend whose tools are missing is replaced by the first.
-/

namespace ArrowCircuit

/-- A way to make proofs. -/
inductive Backend where
  | groth16
  | ultrahonk
  | sunspot
  deriving DecidableEq, Repr

namespace Backend

/-- The name of a backend. -/
def name : Backend → String
  | .groth16 => "groth16"
  | .ultrahonk => "ultrahonk"
  | .sunspot => "sunspot"

/-- All backends. -/
def all : List Backend := [.groth16, .ultrahonk, .sunspot]

/-- The backend of a name. -/
def ofName? (t : Text) : Option Backend := all.find? fun b => Text.ofString b.name = t

/-- Whether the chain takes proofs of the backend of a name. -/
def fitsChain (name : String) : Bool := name = Backend.groth16.name

/-- Why there is no choice. -/
inductive ChoiceFault where
  /-- A preference that names no backend. -/
  | unknown (shown : String)
  /-- A name that is not exactly the name of a backend. -/
  | unnamed (shown : String)
  | chain (chain backend : String)
  | config (fault : Config.Fault)
  /-- A preference of a kind that has no letters. -/
  | preferenceKind (typeName : String)
  /-- A chain of a kind that cannot be looked up. -/
  | chainKind (typeName : String)
  /-- The path of a tool is no text. -/
  | pathKind (typeName : String)
  | numeral (fault : Numeral.Fault)
  deriving DecidableEq, Repr

/-- The wording of a fault. -/
def ChoiceFault.message : ChoiceFault → String
  | .unknown shown =>
    "unknown backend '" ++ shown ++ "', expected one of " ++ ", ".intercalate (all.map name)
  | .unnamed shown => "unknown backend '" ++ shown ++ "'"
  | .chain c b => Wording.unsupported (c ++ " chain formatting") b
  | .config f => f.message
  | .preferenceKind name => "'" ++ name ++ "' object has no attribute 'lower'"
  | .chainKind name => "unhashable type: '" ++ name ++ "'"
  | .pathKind name => "expected str, bytes or os.PathLike object, not " ++ name
  | .numeral f => f.message

/-- The backends that the environment says are there. -/
def forced (list : String) : List Text :=
  ((Text.splitOn 0x2c (Text.ofString list)).map fun part => Text.lower (Text.strip part)).filter
    fun part => !part.isEmpty

/-- Whether the tool under a setting is installed. -/
def hasTool (installed : String → Bool) (cfg : Json) (key fallback : String) : Except ChoiceFault Bool := do
  let path ← (Config.sectionSetting cfg "cli" key).mapError .config
  match path.getD (.str fallback) with
  | .text t => return installed (Text.toStr t)
  | v => throw (.pathKind (Config.typeName v))

/-- Which backends can be used. -/
def available (env : Environment) (installed : String → Bool) (cfg : Json) :
    Except ChoiceFault (Backend → Bool) :=
  match (env.lookup "BACKEND_AVAILABLE").getD "" with
  | "" => do
    let nargo ← hasTool installed cfg "nargo_path" "nargo"
    let bb ← if nargo then hasTool installed cfg "bb_path" "bb" else pure false
    let sunspot ← if nargo then hasTool installed cfg "sunspot_path" "sunspot" else pure false
    return fun
      | .groth16 => true
      | .ultrahonk => bb
      | .sunspot => sunspot
  | list =>
    let names := forced list
    .ok fun b => b = .groth16 || names.contains (Text.ofString b.name)

/-- The backend for a preference and a chain. -/
def choose (env : Environment) (installed : String → Bool) (cfg prefer chain : Json) :
    Except ChoiceFault Backend := do
  match chain with
  | .array (_ :: _) | .object (_ :: _) => throw (.chainKind (Config.typeName chain))
  | _ => pure ()
  if !prefer.isTruthy then return .groth16
  match prefer with
  | .text t =>
    match ofName? (Text.lower t) with
    | none => throw (.unknown (Text.toStr t))
    | some b =>
      if chain.string? = some "solana" ∧ !fitsChain b.name then throw (.chain "solana" b.name)
      let usable ← available env installed cfg
      return if usable b then b else .groth16
  | v => throw (.preferenceKind (Config.typeName v))

/-- The backend that a name is exactly the name of. -/
def ofExactName (name : Json) : Except ChoiceFault Backend :=
  let known := match name with
    | .text t => ofName? t
    | _ => none
  match known with
  | some b => .ok b
  | none => do
    let shown ← (Value.ofJson name).display.mapError .numeral
    throw (.unnamed (Text.toStr shown))

/-- The backend of a configuration: a preference counts before the configured one. -/
def configured (env : Environment) (installed : String → Bool) (cfg prefer chain : Json) :
    Except ChoiceFault Backend := do
  let prefer ← if prefer.isTruthy then pure prefer else do
    let provider ← (Config.setting cfg "provider").mapError .config
    pure (provider.getD .null)
  choose env installed cfg prefer chain

end Backend

end ArrowCircuit
