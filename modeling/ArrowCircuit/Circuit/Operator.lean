/-!
# Operators

The operators that circuits know, with their symbols.
-/

namespace ArrowCircuit

/-- Operators between two operands. -/
inductive BinaryOp where
  | add | sub | mul | div | mod | eq | ne | lt | le | gt | ge | and | or
  deriving DecidableEq, Repr

/-- Operators before an operand. -/
inductive UnaryOp where
  | neg | not
  deriving DecidableEq, Repr

/-- The symbol of an operator between two operands. -/
def BinaryOp.symbol : BinaryOp → String
  | .add => "+"
  | .sub => "-"
  | .mul => "*"
  | .div => "/"
  | .mod => "%"
  | .eq => "=="
  | .ne => "!="
  | .lt => "<"
  | .le => "<="
  | .gt => ">"
  | .ge => ">="
  | .and => "&&"
  | .or => "||"

/-- All operators between two operands. -/
def BinaryOp.all : List BinaryOp :=
  [.add, .sub, .mul, .div, .mod, .eq, .ne, .lt, .le, .gt, .ge, .and, .or]

/-- The operator with a symbol. -/
def BinaryOp.ofSymbol? (s : String) : Option BinaryOp := BinaryOp.all.find? (·.symbol = s)

/-- The symbol of an operator before an operand. -/
def UnaryOp.symbol : UnaryOp → String
  | .neg => "-"
  | .not => "!"

/-- The operator before an operand with a symbol. -/
def UnaryOp.ofSymbol? (s : String) : Option UnaryOp := [UnaryOp.neg, .not].find? (·.symbol = s)

end ArrowCircuit
