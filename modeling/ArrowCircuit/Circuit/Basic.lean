import ArrowCircuit.Circuit.Operator
import ArrowCircuit.Json.Basic

/-!
# Circuits

A circuit has named public and private parameters and a list of statements over them. Scripts are
read into circuits, and circuits are what the Noir printer and the constraint lowering work on.

Circuits may also come from elsewhere through their JSON form. Such a circuit can hold operators
that are not known here, and nodes in a place where they do not belong; the latter are kept as they
came, as `foreign` nodes.
-/

namespace ArrowCircuit

/-- A literal value. -/
inductive Literal where
  | int (value : Int)
  | bool (value : Bool)
  | text (value : Text)
  deriving DecidableEq, Repr, Inhabited

/-- An expression. -/
inductive Expr where
  | identifier (name : String)
  | literal (value : Literal)
  | binary (op : BinaryOp) (left right : Expr)
  | unary (op : UnaryOp) (operand : Expr)
  /-- An operator between two operands that is not known here. -/
  | otherBinary (symbol : String) (left right : Expr)
  /-- An operator before an operand that is not known here. -/
  | otherUnary (symbol : String) (operand : Expr)
  /-- The element `object[position]`. -/
  | index (object position : Expr)
  /-- A call of a function, or of a method of the callee. -/
  | call (callee : Expr) (method : Option String) (arguments : List Expr)
  | array (elements : List Expr)
  | conditional (condition consequent alternate : Expr)
  /-- A node that is no expression. -/
  | foreign (node : Json)
  deriving Inhabited, Repr

/-- A statement. -/
inductive Statement where
  | assert (condition : Expr) (message : Option Text)
  | declare (name : String) (isMutable : Bool) (initial : Expr)
  | assign (target : String) (value : Expr) (isMutable : Bool)
  | branch (condition : Expr) (consequent : List Statement) (alternate : Option (List Statement))
  /-- The loop over `counter` from `first` to `last`, the latter included if `inclusive`. -/
  | loop (counter : String) (first last : Expr) (inclusive : Bool) (body : List Statement)
  /-- A node that is no statement. -/
  | foreign (node : Json)
  deriving Inhabited, Repr

/-- A parameter and its position among those of its group. -/
structure Param where
  name : String
  index : Nat
  deriving DecidableEq, Repr

/-- A circuit. -/
structure Circuit where
  publicParams : List Param
  privateParams : List Param
  statements : List Statement
  deriving Inhabited, Repr

namespace Circuit

/-- The names of the parameters in the order of the witness: private ones first. -/
def paramNames (c : Circuit) : List String :=
  c.privateParams.map (·.name) ++ c.publicParams.map (·.name)

/-- The number of public parameters. -/
def publicCount (c : Circuit) : Nat := c.publicParams.length

end Circuit

/-- The tag of a node in the JSON form. -/
def Json.kind (node : Json) : String := ((node.field? "kind").bind Json.string?).getD ""

/-- The tag of an expression in the JSON form. -/
def Expr.kind : Expr → String
  | .identifier .. => "identifier"
  | .literal .. => "literal"
  | .binary .. | .otherBinary .. => "binary"
  | .unary .. | .otherUnary .. => "unary"
  | .index .. => "member"
  | .call .. => "call"
  | .array .. => "array_literal"
  | .conditional .. => "if_expr"
  | .foreign node => node.kind

/-- The tag of a statement in the JSON form. -/
def Statement.kind : Statement → String
  | .assert .. => "assert"
  | .declare .. => "variable_declaration"
  | .assign .. => "assignment"
  | .branch .. => "if_statement"
  | .loop .. => "for_statement"
  | .foreign node => node.kind

end ArrowCircuit
