import ArrowCircuit.Circuit.Operator

/-!
# Abstract form of circuit scripts

What the grammar makes of a script, before names are resolved and unsupported parts refused. Every
node knows its line: that of its first token, an opening parenthesis of its leftmost part included
but not parentheses around the node itself.
-/

namespace ArrowCircuit.Script

/-- Operators before an operand. -/
inductive PrefixedOp where
  | neg | pos | not
  deriving DecidableEq, Repr

/-- Steps by one, before or behind a target. -/
inductive Step where
  | up | down
  deriving DecidableEq, Repr

/-- Assignment, plain or with an operation. -/
inductive AssignOp where
  | plain | add | sub | mul
  deriving DecidableEq, Repr

/-- An expression of a script. -/
inductive Term where
  | ident (line : Nat) (name : String)
  | number (line : Nat) (digits : List Char)
  | string (line : Nat) (literal : List Char)
  | bool (line : Nat) (value : Bool)
  | array (line : Nat) (elements : List Term)
  | binary (line : Nat) (op : BinaryOp) (left right : Term)
  | unary (line : Nat) (op : PrefixedOp) (operand : Term)
  | step (line : Nat) (direction : Step) (target : Term)
  | assign (line : Nat) (op : AssignOp) (target value : Term)
  | ternary (line : Nat) (condition consequent alternate : Term)
  | index (line : Nat) (object position : Term)
  | property (line : Nat) (object : Term) (name : String)
  | call (line : Nat) (callee : Term) (arguments : List Term)
  deriving Inhabited, Repr

/-- The line of an expression. -/
def Term.line : Term → Nat
  | .ident l .. | .number l .. | .string l .. | .bool l .. | .array l .. | .binary l .. | .unary l ..
  | .step l .. | .assign l .. | .ternary l .. | .index l .. | .property l .. | .call l .. => l

/-- What a declaration binds: a name, or a pattern of names. -/
inductive Binder where
  | name (name : String)
  | pattern
  deriving DecidableEq, Repr

/-- One declared binder with its initial value. -/
structure Declarator where
  line : Nat
  binder : Binder
  initial : Option Term
  deriving Repr

/-- The first part of a loop head. -/
inductive LoopInit where
  | absent
  | declaration (declarator : Declarator)
  | expression (term : Term)
  deriving Repr

/-- A loop test with the line at which it starts. -/
structure LoopTest where
  line : Nat
  term : Term
  deriving Repr

/-- A statement of a script. -/
inductive Stmt where
  | declaration (line : Nat) (declarators : List Declarator)
  | branch (line : Nat) (condition : Term) (consequent : Stmt) (alternate : Option Stmt)
  | loop (line : Nat) (init : LoopInit) (test : Option LoopTest) (update : Option Term) (body : Stmt)
  | whileLoop (line : Nat) (test : Term) (body : Stmt)
  | result (line : Nat) (value : Option Term)
  | block (line : Nat) (statements : List Stmt)
  | expression (line : Nat) (term : Term)
  deriving Inhabited, Repr

/-- A parameter of the function; the names of a pattern have lines of their own. -/
inductive Parameter where
  | pattern (line : Nat) (names : List (Nat × String))
  | plain (line : Nat) (name : String)
  deriving DecidableEq, Repr

/-- The body of the function. -/
inductive Body where
  | block (statements : List Stmt)
  | expression (term : Term)
  deriving Repr

/-- The parameters: one bare name before an arrow, or a list between parentheses. -/
inductive Parameters where
  | bare (line : Nat) (name : String)
  | listed (line : Nat) (items : List Parameter)
  deriving DecidableEq, Repr

/-- A script: a function with its parameters and its body. -/
structure Definition where
  parameters : Parameters
  body : Body
  deriving Repr

end ArrowCircuit.Script
