import ArrowCircuit.Fault
import ArrowCircuit.Json.Writer

/-!
# JSON documents

A document is a value in a layout, closed by a line end. It is stored as bytes, so none of its texts may
hold a surrogate, and its integers are written in decimal up to the limit of numerals.
-/

namespace ArrowCircuit.Json

mutual

/-- The first fault that keeps a value from being stored. -/
def storageFault : Json → Option Fault
  | .text t => if t.isEncodable then none else some .unencodable
  | .int z =>
    match Numeral.decimal? z with
    | .ok _ => none
    | .error f => some (.numeral f)
  | .array items => storageFaults items
  | .object fields => fieldFaults fields
  | _ => none

/-- The first fault of a list of values. -/
def storageFaults : List Json → Option Fault
  | [] => none
  | v :: rest => (storageFault v).or (storageFaults rest)

/-- The first fault of a list of fields. -/
def fieldFaults : List (String × Json) → Option Fault
  | [] => none
  | (_, v) :: rest => (storageFault v).or (fieldFaults rest)

end

/-- The text of a document. -/
def document (v : Json) (layout : Layout) : Except Fault String :=
  match storageFault v with
  | some f => .error f
  | none => .ok (indented layout 0 v ++ "\n")

end ArrowCircuit.Json
