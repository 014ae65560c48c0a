import ArrowCircuit.Backend.Choice
import ArrowCircuit.Chain.Format
import ArrowCircuit.Chain.Network
import ArrowCircuit.Circuit.Noir
import ArrowCircuit.Config.Logger
import ArrowCircuit.Constraint.Lowering
import ArrowCircuit.Groth16.Prove
import ArrowCircuit.Groth16.Verify
import ArrowCircuit.Noir.Toml
import ArrowCircuit.Script.Elaboration
import ArrowCircuit.Tool.Command
import ArrowCircuit.Tool.Toolchain
import ArrowCircuit.Value.Arithmetic
import ArrowCircuit.Witness.Generation

/-!
# Faults

Everything that can go wrong on the way from a script to a proof, as one type of causes. Each cause has
a message and belongs to a family, by which callers tell faults apart: the families of the circuits
themselves, which are reported to the user, and those of the values and files around them.
-/

namespace ArrowCircuit

/-- The families of faults. -/
inductive Family where
  /-- A fault of a circuit or a session that has no closer family. -/
  | circuit
  /-- A script that is no circuit. -/
  | script
  /-- A name that is not in scope. -/
  | name
  /-- A feature that a backend does not have. -/
  | feature
  /-- A witness that cannot be computed. -/
  | witness
  /-- Inputs that do not match the circuit. -/
  | input
  /-- A proving engine that failed. -/
  | engine
  /-- A command-line tool that failed. -/
  | tool
  /-- Bytes or sizes that a format does not have. -/
  | format
  /-- Bytes of the right length that are no point. -/
  | point
  /-- A value that is not accepted. -/
  | value
  /-- A value of the wrong kind. -/
  | kind
  | zeroDivision
  | missingFile
  | notImplemented
  /-- A value without the part that is asked of it. -/
  | part
  /-- A key that is not there. -/
  | key
  /-- A position beyond the end. -/
  | position
  | overflow
  | stringLiteral
  | json
  /-- A text that has no bytes. -/
  | encoding
  /-- Bytes that are no text. -/
  | decoding
  | isDirectory
  | notDirectory
  | fileExists
  /-- A family of an engine from outside, by its name. -/
  | other (name : String)
  deriving DecidableEq, Repr

/-- The families that have no name of their own. -/
def Family.known : List Family :=
  [.circuit, .script, .name, .feature, .witness, .input, .engine, .tool, .format, .point, .value, .kind,
    .zeroDivision, .missingFile, .notImplemented, .part, .key, .position, .overflow, .stringLiteral,
    .json, .encoding, .decoding, .isDirectory, .notDirectory, .fileExists]

/-- Whether a family is one of circuits, whose faults are reported as they are. -/
def Family.isCircuit : Family → Bool
  | .circuit | .script | .name | .feature | .witness | .input | .engine | .tool | .format
  | .point => true
  | _ => false

/-- A cause of failure. -/
inductive Fault where
  | script (fault : Script.Error)
  | noir (fault : Noir.Fault)
  | bits (fault : Lowering.BitsFault)
  | lowering (fault : Lowering.Fault)
  | inputs (fault : InputFault)
  | witness (fault : Witness.Fault)
  | check (fault : CheckFault)
  | point (fault : PointFault)
  | wire (fault : WireFault)
  | wireInput (fault : Wire.InputFault)
  | provingKey (fault : Groth16.KeyFault)
  | setup (fault : Groth16.SetupFault)
  | prove (fault : Groth16.ProveFault)
  | verify (fault : Groth16.VerifyFault)
  | account (fault : Account.Fault)
  | chain (fault : ChainProof.Fault)
  | config (fault : Config.Fault)
  | backend (fault : Backend.ChoiceFault)
  | logger (fault : Logger.Fault)
  | value (fault : Value.IntFault)
  | operation (fault : Value.OperationFault)
  | element (fault : Element.Fault)
  | parse (fault : PrimeField.ParseFault)
  | bitList (fault : Bits.Fault)
  | numeral (fault : Numeral.Fault)
  | json (fault : Json.ReadFault)
  | toml (fault : Toml.Fault)
  | file (fault : FileFault)
  | tool (failure : Tool.Failure)
  | toolchain (fault : Toolchain.Fault)
  /-- A session has no circuit yet. -/
  | noCircuit
  | unknownChain (shown : String)
  | unknownNetwork (shown : String)
  /-- A session without a chain is asked for the chain's form of a proof. -/
  | noChain
  | compositeModulus
  /-- Values are given by something that has no length. -/
  | noLength (typeName : String)
  /-- Values are given by names where positions are asked for. -/
  | namedValues
  /-- A value is asked for a part that its kind does not have. -/
  | noPart
  /-- The text of a file has no bytes. -/
  | unencodable
  | configNotFound (path : String)
  | inputsNotFound (path : String)
  /-- A path is given by a value that is no text. -/
  | pathKind (typeName : String)
  /-- The name of a file is given by a value that is no text. -/
  | nameKind (typeName : String)
  /-- A bound is given by a value that is no integer. -/
  | boundKind
  | notImplemented (operation : String)
  /-- A proving engine failed at a stage, with a fault that is none of a circuit. -/
  | engineFailed (engine stage message : String)
  /-- A fault as an engine from outside reports it. -/
  | reported (family : Family) (message : String)
  deriving Repr

namespace Fault

/-- The family of a fault of a script. -/
def scriptFamily : Script.Error → Family
  | .scope .. => .name
  | .stringLiteral => .stringLiteral
  | .numeral _ => .value
  | _ => .script

/-- The family of a value that is no integer. -/
def intFamily : Value.IntFault → Family
  | .notNumber _ => .kind
  | .notFinite false => .overflow
  | _ => .value

/-- The family of a fault of arithmetic. -/
def elementFamily : Element.Fault → Family
  | .differentFields => .value
  | _ => .zeroDivision

/-- The family of a fault of bit lists. -/
def bitListFamily : Bits.Fault → Family
  | .negativeCount => .value
  | _ => .witness

/-- The family of a missing value. -/
def checkFamily : CheckFault → Family
  | .missing _ => .key
  | .outOfRange _ => .position

/-- The family of a fault of points. -/
def pointFamily (f : PointFault) : Family := if f.isInvalid then .point else .format

/-- The family of a fault of the byte formats. -/
def wireFamily : WireFault → Family
  | .point f => pointFamily f
  | _ => .format

/-- The family of a fault of public inputs. -/
def wireInputFamily : Wire.InputFault → Family
  | .numeral _ => .value
  | _ => .format

/-- The family of a fault of proving keys. -/
def provingKeyFamily : Groth16.KeyFault → Family
  | .point f => pointFamily f
  | _ => .engine

/-- The family of a missing or unsuitable file. -/
def fileFamily : FileFault → Family
  | .missing _ => .missingFile
  | .notDirectory _ => .notDirectory
  | .isDirectory _ => .isDirectory
  | .alreadyExists _ => .fileExists
  | .notText _ => .decoding

/-- The family of a fault of configurations. -/
def configFamily : Config.Fault → Family
  | .notSection => .part
  | .notAssignable _ => .kind

/-- The family of a fault. -/
def family : Fault → Family
  | .script f => scriptFamily f
  | .noir (.cannotRender _) => .kind
  | .noir (.numeral _) => .value
  | .bits (.value f) => intFamily f
  | .bits _ => .value
  | .lowering (.unsupported _) => .feature
  | .lowering (.alreadyDeclared _) => .script
  | .lowering _ => .name
  | .inputs .position => .position
  | .inputs _ => .input
  | .witness (.privateCount ..) | .witness (.publicCount ..) | .witness (.input _) => .input
  | .witness (.absent _) => .key
  | .witness (.bits f) => bitListFamily f
  | .witness (.inverse f) => elementFamily f
  | .witness _ => .witness
  | .check f => checkFamily f
  | .point f => pointFamily f
  | .wire f => wireFamily f
  | .wireInput f => wireInputFamily f
  | .provingKey f => provingKeyFamily f
  | .setup (.rows f) => checkFamily f
  | .setup (.basis f) => elementFamily f
  | .setup .exhausted => .engine
  | .setup .header => .other "error"
  | .prove (.key f) => provingKeyFamily f
  | .prove (.rows f) => checkFamily f
  | .prove (.input f) => wireInputFamily f
  | .prove _ => .engine
  | .verify (.wire f) => wireFamily f
  | .verify (.input f) => wireInputFamily f
  | .verify (.inputCount ..) => .format
  | .account _ => .format
  | .chain (.input f) => wireInputFamily f
  | .chain (.inputKind _) | .chain (.rate _) => .kind
  | .chain (.inputParts _) => .part
  | .chain _ => .format
  | .config f => configFamily f
  | .backend (.chain ..) => .feature
  | .backend (.config f) => configFamily f
  | .backend (.preferenceKind _) => .part
  | .backend (.chainKind _) | .backend (.pathKind _) => .kind
  | .backend _ => .value
  | .logger (.unknown _) => .value
  | .logger (.kind _) => .kind
  | .value f => intFamily f
  | .operation (.element f) => elementFamily f
  | .operation (.value f) => intFamily f
  | .operation .zeroDivisor => .zeroDivision
  | .operation _ => .kind
  | .element f => elementFamily f
  | .parse (.notConvertible _) => .kind
  | .parse _ => .value
  | .bitList f => bitListFamily f
  | .numeral _ => .value
  | .json .malformed => .json
  | .json (.numeral _) => .value
  | .toml (.unsupported _) => .input
  | .toml (.numeral _) => .value
  | .file f => fileFamily f
  | .tool _ => .tool
  | .toolchain _ => .engine
  | .noCircuit | .unknownChain _ => .circuit
  | .unknownNetwork _ | .compositeModulus => .value
  | .noChain | .namedValues => .key
  | .noLength _ | .pathKind _ | .nameKind _ | .boundKind => .kind
  | .noPart => .part
  | .unencodable => .encoding
  | .configNotFound _ | .inputsNotFound _ => .missingFile
  | .notImplemented _ => .notImplemented
  | .engineFailed .. => .engine
  | .reported family _ => family

/-- The message of a fault of the library's own engine, named before it if the family is the engines'. -/
def engineMessage (family : Family) (message : String) : String :=
  if family = .engine then Wording.attributed (some "groth16") message else message

/-- The wording of a missing value. -/
def checkMessage : CheckFault → String
  | .missing i => Numeral.decimalNat i
  | .outOfRange _ => "list assignment index out of range"

/-- The message of a fault. -/
def message : Fault → String
  | .script f => f.message
  | .noir f => f.message
  | .bits f => f.message
  | .lowering f => f.message
  | .inputs f => f.message
  | .witness f => f.message
  | .check f => checkMessage f
  | .point f => f.message
  | .wire f => f.message
  | .wireInput f => f.message
  | .provingKey f => engineMessage (provingKeyFamily f) f.message
  | .setup (.rows f) => checkMessage f
  | .setup (.basis f) => f.message
  | .setup .exhausted => engineMessage .engine "no secret outside the domain"
  | .setup .header => "'I' format requires 0 <= number <= 4294967295"
  | .prove f => engineMessage (family (.prove f)) f.message
  | .verify f => f.message
  | .account f => f.message
  | .chain f => f.message
  | .config f => f.message
  | .backend f => f.message
  | .logger f => f.message
  | .value f => f.message
  | .operation f => f.message
  | .element f => f.message
  | .parse f => f.message
  | .bitList f => f.message
  | .numeral f => f.message
  | .json .malformed => "malformed JSON"
  | .json (.numeral f) => f.message
  | .toml f => f.message
  | .file f => f.message
  | .tool f => f.text
  | .toolchain f => f.message
  | .noCircuit => "no circuit compiled; call compile() first"
  | .unknownChain shown => "unknown chain '" ++ shown ++ "'"
  | .unknownNetwork shown => Network.unknownMessage shown
  | .noChain => "None"
  | .compositeModulus => PrimeField.compositeMessage
  | .noLength name => "object of type '" ++ name ++ "' has no len()"
  | .namedValues => "0"
  | .noPart => "no such part"
  | .unencodable => "surrogates not allowed"
  | .configNotFound path => "Config file not found: " ++ path
  | .inputsNotFound path => "Inputs file not found: " ++ path
  | .pathKind name => "expected str, bytes or os.PathLike object, not " ++ name
  | .nameKind name => "unsupported operand type(s) for /: 'PosixPath' and '" ++ name ++ "'"
  | .boundKind => "slice indices must be integers or None or have an __index__ method"
  | .notImplemented op => op
  | .engineFailed engine stage message =>
    Wording.attributed (some engine) (stage ++ " failed: " ++ message)
  | .reported _ message => message

/-- Whether a fault is one of circuits. -/
def isCircuit (f : Fault) : Bool := f.family.isCircuit

end Fault

end ArrowCircuit
