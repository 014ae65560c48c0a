import ArrowCircuit.Wording

/-!
# Faults of toolchains

What goes wrong between the tools: a tool that ended well has not written the file that is expected of
it, or a circuit is not one that the backend can use.
-/

namespace ArrowCircuit.Toolchain

/-- Why a step of a toolchain has no result. -/
inductive Fault where
  | programNotFound (path : String)
  | witnessNotProduced (path : String)
  | proofNotProduced (engine path : String)
  | keyNotProduced (path : String)
  | artifactNotProduced (path : String)
  /-- Compilation is asked of a backend that was given finished files. -/
  | alreadyCompiled
  | noCompiledFiles
  /-- The circuit comes from another backend. -/
  | otherCircuit
  deriving DecidableEq, Repr

namespace Fault

/-- The tool that a fault is laid to. -/
def engine : Fault → String
  | .programNotFound _ | .witnessNotProduced _ => "nargo"
  | .proofNotProduced engine _ => engine
  | .keyNotProduced _ => "bb"
  | _ => "sunspot"

/-- The wording of a fault, without the tool. -/
def wording : Fault → String
  | .programNotFound path => "compiled circuit not found: " ++ path
  | .witnessNotProduced path => "witness not produced: " ++ path
  | .proofNotProduced _ path => "proof not produced: " ++ path
  | .keyNotProduced path => "verification key not produced: " ++ path
  | .artifactNotProduced path => "sunspot artifact not produced: " ++ path
  | .alreadyCompiled =>
    "initialized with pre-compiled circuit paths; compile() is not available. " ++
      "Use generate_proof() and verify_proof() directly."
  | .noCompiledFiles => "no pre-compiled circuit paths configured"
  | .otherCircuit => "circuit was not compiled by the sunspot backend"

/-- The message of a fault. -/
def message (f : Fault) : String := Wording.attributed (some f.engine) f.wording

end Fault

end ArrowCircuit.Toolchain
