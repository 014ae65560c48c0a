import ArrowCircuit.Number.Numeral

/-!
# Wording

The parts that messages have in common: the place of a fault in a script, the backend that lacks a
feature, and the engine that failed.
-/

namespace ArrowCircuit.Wording

/-- A message with the place it is about; a column counts only with a line. -/
def located (message : String) (line column : Option Int) : String :=
  match line, column with
  | none, _ => message
  | some line, none => message ++ " (line " ++ Numeral.decimal line ++ ")"
  | some line, some column =>
    message ++ " (line " ++ Numeral.decimal line ++ ", column " ++ Numeral.decimal column ++ ")"

/-- A feature that a backend does not have. -/
def unsupported (feature backend : String) : String :=
  feature ++ " is unsupported in " ++ backend ++ " backend"

/-- A message of an engine, named before it unless it has no name. -/
def attributed (engine : Option String) (message : String) : String :=
  match engine with
  | none | some "" => message
  | some name => "[" ++ name ++ "] " ++ message

end ArrowCircuit.Wording
