import ArrowCircuit.Bytes.Sha256
import ArrowCircuit.Bytes.Basic
import ArrowCircuit.Curve.Bn254
import ArrowCircuit.Number.Numeral
import ArrowCircuit.Wire.Proof

/-!
# Verifying-key accounts

The account in which the chain stores a verifying key: a mark of eight bytes, the authority, the
number of public inputs, the fixed points of the key, the length of the list of input points, and that
list. Counts are integers, since the size of an account is also asked for counts that no account has.
-/

namespace ArrowCircuit.Account

/-- The number of bytes of the mark. -/
def markSize : Nat := 8

/-- The number of bytes of the authority. -/
def authoritySize : Nat := 32

/-- The greatest number of public inputs. -/
def maxInputs : Nat := 16

/-- The name under which accounts are marked. -/
def keyAccountName : String := "VerifyingKeyAccount"

/-- The number of bytes of a verifying key for `n` public inputs. -/
def keySize (n : Int) : Int := VerifyingKey.size Bn254.suite n

/-- The number of bytes of a key before the points of its inputs. -/
def keyHeaderSize : Nat := VerifyingKey.headerSize Bn254.suite

/-- The number of bytes of an account for `n` public inputs. -/
def size (n : Int) : Int := 8 + 32 + 1 + keyHeaderSize + 4 + (n + 1) * 64

/-- The mark of accounts of a name: the first bytes of a hash. -/
def mark (name : Bytes) : Bytes := (Sha256.hash (Bytes.ofString "account:" ++ name)).take markSize

/-- Why there is no account. -/
inductive Fault where
  | authority (actual : Nat)
  | inputCount (count : Int)
  | keySize (actual : Nat) (expected count : Int)
  | accountSize (actual : Nat) (expected : Int)
  deriving DecidableEq, Repr

/-- The wording of a fault. -/
def Fault.message : Fault → String
  | .authority actual => "authority must be 32 bytes, got " ++ toString actual
  | .inputCount count =>
    "public input count " ++ Numeral.decimal count ++ " outside supported range 0..16"
  | .keySize actual expected count =>
    "verifying key is " ++ toString actual ++ " bytes, expected " ++ Numeral.decimal expected ++
      " for " ++ Numeral.decimal count ++ " public inputs"
  | .accountSize actual expected =>
    "verifying key account is " ++ toString actual ++ " bytes, expected " ++ Numeral.decimal expected

/-- The number of public inputs, if accounts can have as many. -/
def checkedCount (n : Int) : Except Fault Nat :=
  if n < 0 ∨ n > maxInputs then .error (.inputCount n) else .ok n.toNat

/-- The sections of an account one behind the other. The length of the list of input points goes into
the key, before that list. -/
def sections (key authority : Bytes) (count : Nat) : Bytes :=
  mark (Bytes.ofString keyAccountName) ++ authority ++ [UInt8.ofNat count] ++
    key.take keyHeaderSize ++ Bytes.littleEndian 4 (count + 1) ++ key.drop keyHeaderSize

/-- The bytes of an account. -/
def encode (key authority : Bytes) (n : Int) : Except Fault Bytes := do
  if authority.length ≠ authoritySize then throw (.authority authority.length)
  let count ← checkedCount n
  if (key.length : Int) ≠ keySize n then throw (.keySize key.length (keySize n) n)
  let account := sections key authority count
  if (account.length : Int) ≠ size n then throw (.accountSize account.length (size n))
  return account

end ArrowCircuit.Account
