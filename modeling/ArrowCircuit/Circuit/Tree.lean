import ArrowCircuit.Circuit.Basic

/-!
# Circuits as JSON

The JSON form of a circuit: each node is an object with its tag and its parts. How literals are
written is left to the caller.
-/

namespace ArrowCircuit.Circuit

/-- A node with its tag. -/
def node (kind : String) (fields : List (String × Json)) : Json :=
  .object (("kind", .str kind) :: fields)

/-- A literal as a plain JSON value. -/
def plainLiteral : Literal → Json
  | .int z => .int z
  | .bool b => .bool b
  | .text t => .text t

/-- A literal in JSON with integers as hexadecimal numerals under a tag. -/
def taggedLiteral : Literal → Json
  | .int z => .object [("int", .str (Numeral.hex z))]
  | l => plainLiteral l

mutual

/-- The JSON form of an expression. -/
def exprTree (literal : Literal → Json) : Expr → Json
  | .identifier name => node "identifier" [("name", .str name)]
  | .literal v => node "literal" [("value", literal v)]
  | .binary op l r =>
    node "binary" [("op", .str op.symbol), ("left", exprTree literal l), ("right", exprTree literal r)]
  | .otherBinary op l r =>
    node "binary" [("op", .str op), ("left", exprTree literal l), ("right", exprTree literal r)]
  | .unary op e => node "unary" [("op", .str op.symbol), ("operand", exprTree literal e)]
  | .otherUnary op e => node "unary" [("op", .str op), ("operand", exprTree literal e)]
  | .index o i => node "member" [("object", exprTree literal o), ("index", exprTree literal i)]
  | .call c m args =>
    node "call" [("callee", exprTree literal c), ("method", (m.map Json.str).getD .null),
      ("args", .array (exprTrees literal args))]
  | .array es => node "array_literal" [("elements", .array (exprTrees literal es))]
  | .conditional c a b =>
    node "if_expr" [("condition", exprTree literal c), ("consequent", exprTree literal a),
      ("alternate", exprTree literal b)]
  | .foreign node => node

/-- The JSON forms of a list of expressions. -/
def exprTrees (literal : Literal → Json) : List Expr → List Json
  | [] => []
  | e :: rest => exprTree literal e :: exprTrees literal rest

end

mutual

/-- The JSON form of a statement. -/
def statementTree (literal : Literal → Json) : Statement → Json
  | .assert c m =>
    node "assert" [("condition", exprTree literal c), ("message", (m.map Json.text).getD .null)]
  | .declare n m e =>
    node "variable_declaration"
      [("name", .str n), ("mutable", .bool m), ("initializer", exprTree literal e)]
  | .assign n e m =>
    node "assignment" [("target", .str n), ("value", exprTree literal e), ("mutable", .bool m)]
  | .branch c a none =>
    node "if_statement" [("condition", exprTree literal c),
      ("consequent", .array (statementTrees literal a)), ("alternate", .null)]
  | .branch c a (some b) =>
    node "if_statement" [("condition", exprTree literal c),
      ("consequent", .array (statementTrees literal a)),
      ("alternate", .array (statementTrees literal b))]
  | .loop v s e i b =>
    node "for_statement" [("variable", .str v), ("start", exprTree literal s),
      ("end", exprTree literal e), ("inclusive", .bool i), ("body", .array (statementTrees literal b))]
  | .foreign node => node

/-- The JSON forms of a list of statements. -/
def statementTrees (literal : Literal → Json) : List Statement → List Json
  | [] => []
  | s :: rest => statementTree literal s :: statementTrees literal rest

end

/-- The JSON form of a parameter. -/
def paramTree (p : Param) : Json := .object [("name", .str p.name), ("index", .nat p.index)]

/-- The JSON form of a circuit. -/
def tree (literal : Literal → Json) (c : Circuit) : Json :=
  .object [("public_params", .array (c.publicParams.map paramTree)),
    ("private_params", .array (c.privateParams.map paramTree)),
    ("statements", .array (statementTrees literal c.statements))]

end ArrowCircuit.Circuit
