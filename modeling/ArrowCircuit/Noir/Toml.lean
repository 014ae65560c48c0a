import ArrowCircuit.Circuit.Inputs
import ArrowCircuit.Text.Escaped
import ArrowCircuit.Value.Basic

/-!
# Inputs of a Noir program

The inputs of a program are a file of lines `name = value`: numbers are bare, texts are quoted unless
they are digits, lists are in brackets.
-/

namespace ArrowCircuit.Toml

/-- Why a value is not written. -/
inductive Fault where
  | unsupported (typeName : String)
  | numeral (fault : Numeral.Fault)
  deriving DecidableEq, Repr

/-- The wording of a fault. -/
def Fault.message : Fault → String
  | .unsupported name => "unsupported input value type: " ++ name
  | .numeral f => f.message

mutual

/-- A value as it is written. -/
def value : Value → Except Fault String
  | .bool b => .ok (if b then "1" else "0")
  | .int z => (Numeral.decimal? z).mapError .numeral
  | .list items => do return "[" ++ ", ".intercalate (← values items) ++ "]"
  | .text t =>
    let t := Text.strip t
    .ok (if !t.isEmpty && t.all Text.isDigit then Text.toStr t else Text.escaped t)
  | v => .error (.unsupported v.typeName)

/-- The items of a list as they are written. -/
def values : List Value → Except Fault (List String)
  | [] => .ok []
  | v :: rest => do
    let first ← value v
    let rest ← values rest
    return first :: rest

end

/-- The lines of a map of inputs. -/
def inputs (m : InputMap Value) : Except Fault String := do
  let lines ← m.mapM fun (name, v) => do return name ++ " = " ++ (← value v) ++ "\n"
  return String.join lines

end ArrowCircuit.Toml
