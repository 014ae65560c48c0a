import ArrowCircuit.Backend.Bench
import ArrowCircuit.Backend.Direct
import ArrowCircuit.Backend.Honk
import ArrowCircuit.Backend.Scripted
import ArrowCircuit.Backend.Settings
import ArrowCircuit.Backend.Sunspot
import ArrowCircuit.Bytes.Base64
import ArrowCircuit.Chain.Format
import ArrowCircuit.Chain.Network
import ArrowCircuit.Circuit.Inputs
import ArrowCircuit.Circuit.Noir
import ArrowCircuit.Circuit.Reader
import ArrowCircuit.Circuit.Tree
import ArrowCircuit.CommandLine.Arguments
import ArrowCircuit.CommandLine.Program
import ArrowCircuit.Config.Environment
import ArrowCircuit.Config.Logger
import ArrowCircuit.Constraint.Check
import ArrowCircuit.Constraint.Lowering
import ArrowCircuit.Constraint.Qap
import ArrowCircuit.Constraint.Reader
import ArrowCircuit.Curve.Bn254
import ArrowCircuit.Files.Tree
import ArrowCircuit.Groth16.Prove
import ArrowCircuit.Groth16.Verify
import ArrowCircuit.Json.Document
import ArrowCircuit.Json.Reader
import ArrowCircuit.Json.Writer
import ArrowCircuit.Main
import ArrowCircuit.Noir.Toml
import ArrowCircuit.Pipeline.Artifacts
import ArrowCircuit.Pipeline.Desk
import ArrowCircuit.Pipeline.Instant
import ArrowCircuit.Pipeline.Proving
import ArrowCircuit.Pipeline.Record
import ArrowCircuit.Pipeline.Summary
import ArrowCircuit.Poly.Domain
import ArrowCircuit.PrimeField.Random
import ArrowCircuit.Script.Elaboration
import ArrowCircuit.Session
import ArrowCircuit.Shell.Execution
import ArrowCircuit.Text.Blank
import ArrowCircuit.Tool.Command
import ArrowCircuit.Tool.Scripted
import ArrowCircuit.Value.Arithmetic
import ArrowCircuit.Value.Tagged
import ArrowCircuit.Witness.Generation
import ArrowCircuit.Proofs.PrimeField.Prime
import ArrowCircuit.Proofs.Constraint.LinearForm
import ArrowCircuit.Proofs.Circuit.Reference
import ArrowCircuit.Proofs.Lowering.Steps
import ArrowCircuit.Proofs.Lowering.Soundness
import ArrowCircuit.Proofs.Witness.Replay
import ArrowCircuit.Proofs.Witness.Bits
import ArrowCircuit.Proofs.Witness.Statements
import ArrowCircuit.Proofs.Lowering.Faults
import ArrowCircuit.Proofs.Witness.Exactness
import ArrowCircuit.Proofs.Witness.WrapAround
import ArrowCircuit.Proofs.Poly.Algebra
import ArrowCircuit.Proofs.Poly.Domain
import ArrowCircuit.Proofs.Bytes.Layout
import ArrowCircuit.Proofs.Curve.Laws
import ArrowCircuit.Proofs.Curve.Multiples
import ArrowCircuit.Proofs.Wire.Proof
import ArrowCircuit.Proofs.Constraint.Qap
import ArrowCircuit.Proofs.Groth16.ProvingKey
import ArrowCircuit.Proofs.Wire.PublicInput
import ArrowCircuit.Proofs.Groth16.Quotient
import ArrowCircuit.Proofs.Groth16.Keys
import ArrowCircuit.Proofs.Groth16.Equation
import ArrowCircuit.Proofs.Groth16.Completeness
import ArrowCircuit.Proofs.Lowering.Determinacy
import ArrowCircuit.Proofs.Groth16.Rejection
import ArrowCircuit.Proofs.Groth16.Hiding
import ArrowCircuit.Proofs.Groth16.PublicInputs
import ArrowCircuit.Proofs.Groth16.Divisibility
import ArrowCircuit.Proofs.Lowering.Schedule
import ArrowCircuit.Proofs.Witness.Layout
import ArrowCircuit.Proofs.Circuit.Scope
import ArrowCircuit.Proofs.Script.Scoping
import ArrowCircuit.Proofs.Lowering.Fragment
import ArrowCircuit.Proofs.Backend.Record
import ArrowCircuit.Proofs.Backend.Keys
import ArrowCircuit.Proofs.Session.Backend
import ArrowCircuit.Proofs.Session.Lifecycle
import ArrowCircuit.Proofs.Session.Failure
import ArrowCircuit.Proofs.Number.Numeral
import ArrowCircuit.Proofs.Wire.Readings
import ArrowCircuit.Proofs.Witness.NamedInputs
import ArrowCircuit.Proofs.Curve.Canonical
import ArrowCircuit.Proofs.Curve.BaseField
import ArrowCircuit.Proofs.Curve.Projective
import ArrowCircuit.Proofs.Wire.Canonical
import ArrowCircuit.Proofs.Groth16.KeyFormat
import ArrowCircuit.Proofs.Wire.Witness
import ArrowCircuit.Proofs.Script.Expressions
import ArrowCircuit.Proofs.Noir.Reading
import ArrowCircuit.Proofs.Noir.Grouping
import ArrowCircuit.Proofs.Lowering.Comparison
import ArrowCircuit.Proofs.Script.Reads
import ArrowCircuit.Proofs.Files.Tree
import ArrowCircuit.Proofs.Tool.History
import ArrowCircuit.Proofs.Backend.ProofFile
import ArrowCircuit.Proofs.Backend.ToolRuns
import ArrowCircuit.Proofs.Backend.ProofOrigin
import ArrowCircuit.Proofs.Chain.Format
import ArrowCircuit.Proofs.Groth16.Lowered
import ArrowCircuit.Proofs.Session.ChainProof
import ArrowCircuit.Proofs.Constraint.Check
import ArrowCircuit.Proofs.Script.Binding
import ArrowCircuit.Proofs.Script.Loops
import ArrowCircuit.Proofs.Script.Printed
import ArrowCircuit.Proofs.Lowering.Coefficients
import ArrowCircuit.Proofs.Witness.Satisfaction
import ArrowCircuit.Proofs.PrimeField.Inverse
import ArrowCircuit.Proofs.PrimeField.Primality
import ArrowCircuit.Proofs.PrimeField.Parsing
import ArrowCircuit.Proofs.Noir.Printing
