import ArrowCircuit.Bytes.Base64
import ArrowCircuit.Bytes.Sha256
import ArrowCircuit.Session
import ArrowCircuit.Value.Tagged

/-!
# Records of proofs

A record says which proof was made, for which script, by which backend, and when. A proof for a chain
is recorded in the chain's form too, with the network it is meant for.

The script is named by its fingerprint: the start of a hash of the script, with line ends made uniform
and without blanks at both ends. How much of the hash is shown is a setting, as other bounds are; null
stands for all of a list, and a negative number leaves out as many items at the end.
-/

namespace ArrowCircuit

/-! ## Bounds -/

namespace Bound

/-- The start of a list up to a bound; a negative bound is counted from the end. -/
def leading {α : Type} (bound : Int) (items : List α) : List α :=
  items.take (if bound < 0 then (items.length + bound).toNat else bound.toNat)

/-- The start of a list up to the bound of a setting. -/
def apply {α : Type} (bound : Json) (items : List α) : Except Fault (List α) :=
  match bound with
  | .null => .ok items
  | .int n => .ok (leading n items)
  | .bool b => .ok (leading (if b then 1 else 0) items)
  | _ => .error .boundKind

end Bound

/-! ## Fingerprints -/

namespace Script

/-- The text with a line feed for each pair of carriage return and line feed. -/
def joinLineEnds : Text → Text
  | 0xd :: 0xa :: rest => 0xa :: joinLineEnds rest
  | c :: rest => c :: joinLineEnds rest
  | [] => []

/-- The hash of a script, if it has bytes. -/
def digest? (script : Text) : Option String :=
  (Bytes.ofText? (Text.strip (joinLineEnds script))).map fun bs => (Sha256.hash bs).hex

/-- The fingerprint of a script: as much of the hash as a setting says, usually sixteen digits. -/
def fingerprint (script : Text) (length : Json) : Except Fault String :=
  match digest? script with
  | some digest => (Bound.apply length digest.toList).map String.ofList
  | none => .error .unencodable

end Script

/-! ## Records -/

/-- What a run knows of its surroundings: the environment, and the time in which it takes place. -/
structure Occasion where
  environment : Environment := []
  createdAt : String := ""

/-- A proof made by the pipeline. -/
structure Proved where
  backend : String
  chain : Option Chain
  creation : Session.Creation

namespace Record

/-- The stages whose durations a record has a place for. -/
def stages : List String :=
  ["parse_ms", "generate_ms", "compile_ms", "prove_ms", "verify_ms", "total_ms"]

/-- The durations of the stages, which are zero, since none is measured. -/
def timings : Json := .object (stages.map fun stage => (stage, .real (.ofDecimal false 0 0)))

/-- The network of a configuration. -/
def network (cfg : Json) : Except Fault Network := do
  let setting ← (Config.sectionSetting cfg "solana" "network").mapError .config
  let setting := setting.getD (.str Network.devnet.name)
  match setting.string?.bind Network.ofName? with
  | some n => return n
  | none => throw (.unknownNetwork (← (Value.ofJson setting).quoted.mapError .numeral))

/-- The chain's part of a record. -/
def chainJson (cfg : Json) (chain : Option Chain) (proof : ChainProof) : Except Fault Json := do
  let n ← network cfg
  return .object ([("id", (chain.map fun c => Json.str c.name).getD .null), ("network", .str n.name),
    ("rpc_url", .str n.rpcUrl)] ++ proof.toJson.fields)

/-- The record of a proof. -/
def toJson (o : Occasion) (cfg : Json) (script : String) (p : Proved) : Except Fault Json := do
  let proof := p.creation.proof
  let circuit ← Script.fingerprint (Text.ofString script) (.int 16)
  let chain ← match p.creation.chain with
    | none => pure []
    | some c => do pure [("chain", ← chainJson cfg p.chain c)]
  return .object ([("backend", .str p.backend), ("circuit", .str circuit),
    ("created_at", .str o.createdAt), ("proof", .str proof.proof.base64),
    ("public_inputs", .array (proof.publicInputs.map Value.tagged)),
    ("verified", .bool p.creation.verified), ("timings_ms", timings)] ++ chain)

end Record

end ArrowCircuit
