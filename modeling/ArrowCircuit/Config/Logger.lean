import ArrowCircuit.Config.Basic
import ArrowCircuit.Text.Quoted

/-!
# Loggers

A logger has a level and handlers. Configuring it sets the level; a handler is attached the first time
only.
-/

namespace ArrowCircuit

/-- A logger: its level and the number of its handlers. -/
structure Logger where
  level : Json := .nat 0
  handlers : Nat := 0
  deriving Repr

namespace Logger

/-- The levels with names. -/
def levels : List (String × Nat) :=
  [("CRITICAL", 50), ("FATAL", 50), ("ERROR", 40), ("WARN", 30), ("WARNING", 30), ("INFO", 20),
    ("DEBUG", 10), ("NOTSET", 0)]

/-- Why a level is not accepted. -/
inductive Fault where
  | unknown (shown : String)
  | kind (shown : String)
  deriving DecidableEq, Repr

/-- The wording of a fault. -/
def Fault.message : Fault → String
  | .unknown shown => "Unknown level: " ++ shown
  | .kind shown => "Level not an integer or a valid string: " ++ shown

/-- The number of a level given by number or name. -/
def levelOf (v : Json) : Except Fault Json :=
  match v with
  | .int _ | .bool _ => .ok v
  | .text t =>
    match levels.find? fun l => Text.ofString l.1 = t with
    | some l => .ok (.nat l.2)
    | none => .error (.unknown (Text.quoted t))
  | v =>
    .error (.kind (match (Value.ofJson v).quoted with
      | .ok s => s
      | .error f => f.message))

/-- Sets the level and attaches a handler if there is none. -/
def configure (l : Logger) (level : Json) : Except Fault Logger := do
  return { level := ← levelOf level, handlers := max 1 l.handlers }

end Logger

end ArrowCircuit
