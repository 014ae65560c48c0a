import ArrowCircuit.Bytes.Base64
import ArrowCircuit.Chain.Account
import ArrowCircuit.Json.Basic
import ArrowCircuit.Wire.PublicInput

/-!
# Proofs for the chain

A proof with its verifying key and public inputs in the form in which the chain's verifier takes them,
together with the size of the key's account and what it costs.
-/

namespace ArrowCircuit

/-- A proof as it is sent to the chain. -/
structure ChainProof where
  key : Bytes
  inputCount : Nat
  proof : Bytes
  inputs : List Bytes
  accountSize : Int
  rent : Json
  deriving Repr

namespace ChainProof

/-- The price of a byte of an account where none is given. -/
def defaultRate : Int := 6960

/-- Why a proof has no form for the chain. -/
inductive Fault where
  | account (fault : Account.Fault)
  | inputCount (expected : Int) (actual : Nat)
  | proofSize (actual : Nat)
  | noKey (backend : String)
  | keySize (actual : Nat) (expected : Int)
  | input (fault : Wire.InputFault)
  /-- A public input of a kind that has no digits. -/
  | inputKind (typeName : String)
  /-- A public input of a kind that has parts and no letters. -/
  | inputParts (typeName : String)
  /-- A price of a kind that is no factor. -/
  | rate (typeName : String)
  deriving DecidableEq, Repr

/-- The wording of a fault. -/
def Fault.message : Fault → String
  | .account f => f.message
  | .inputCount expected actual =>
    "expected " ++ Numeral.decimal expected ++ " public inputs, proof carries " ++ toString actual
  | .proofSize actual => "Invalid proof size: expected 256 bytes, got " ++ toString actual
  | .noKey backend => backend ++ " backend does not expose a gnark verifying key"
  | .keySize actual expected =>
    "verifying key is " ++ toString actual ++ " bytes, expected " ++ Numeral.decimal expected
  | .input f => f.message
  | .inputKind name => "'" ++ name ++ "' object is not subscriptable"
  | .inputParts name => "'" ++ name ++ "' object has no attribute 'lower'"
  | .rate name => "unsupported operand type(s) for *: 'int' and '" ++ name ++ "'"

/-- The rent of an account at a price per byte. -/
def rentAt (size : Int) : Json → Except Fault Json
  | .int rate => .ok (.int (size * rate))
  | .bool b => .ok (.int (if b then size else 0))
  | .text t => .ok (.text (List.replicate size.toNat t).flatten)
  | .array items => .ok (.array (List.replicate size.toNat items).flatten)
  | .real x => .ok (.real (x.scale size))
  | .null => .error (.rate "NoneType")
  | .object _ => .error (.rate "dict")

/-- The 32 bytes of a public input, which has to be a text. -/
def inputWord (v : Value) : Except Fault Bytes :=
  match v with
  | .text t => (do Wire.word (← Wire.hexValue t)).mapError .input
  | .list _ => .error (.inputParts v.typeName)
  | v => .error (.inputKind v.typeName)

/-- Checks the proof itself, before its key is asked for; the answer is the number of public inputs. -/
def checkProof (proof : Bytes) (inputs : List Value) (n : Int) : Except Fault Nat := do
  let count ← (Account.checkedCount n).mapError .account
  if (inputs.length : Int) ≠ n then throw (.inputCount n inputs.length)
  if proof.length ≠ 256 then throw (.proofSize proof.length)
  return count

/-- Puts a checked proof together with its key. -/
def assemble (backend : String) (key : Option Bytes) (rate : Json) (proof : Bytes) (inputs : List Value)
    (count : Nat) : Except Fault ChainProof :=
  match key with
  | none => .error (.noKey backend)
  | some key => do
    if (key.length : Int) ≠ Account.keySize count then
      throw (.keySize key.length (Account.keySize count))
    let words ← inputs.mapM inputWord
    let size := Account.size count
    let rent ← rentAt size rate
    return ⟨key, count, proof, words, size, rent⟩

/-- The form of a proof for the chain. -/
def format (backend : String) (key : Option Bytes) (rate : Json) (proof : Bytes) (inputs : List Value)
    (n : Int) : Except Fault ChainProof := do
  let count ← checkProof proof inputs n
  assemble backend key rate proof inputs count

/-- The texts of the public inputs. -/
def inputTexts (p : ChainProof) : List String := p.inputs.map fun w => "0x" ++ w.hex

/-- The JSON form. -/
def toJson (p : ChainProof) : Json :=
  .object [
    ("verifying_key", .object [("base64", .str p.key.base64), ("nr_public_inputs", .nat p.inputCount)]),
    ("proof", .object [("base64", .str p.proof.base64)]),
    ("public_inputs", .object [("hex", .array (p.inputTexts.map Json.str))]),
    ("account_size", .int p.accountSize),
    ("estimated_rent", p.rent)]

end ChainProof

end ArrowCircuit
