import ArrowCircuit.Circuit.Basic

/-!
# Reading circuits from JSON

The circuit of a JSON form. Parts that are missing are read as empty ones, and a node that does not
belong to its place is kept as it is. How literals are read is left to the caller.
-/

namespace ArrowCircuit.Circuit

/-- The literal of a JSON value; an integer may stand under a tag. -/
def literalOf : Json → Literal
  | .bool b => .bool b
  | .text t => .text t
  | .int z => .int z
  | v => .int (v.part "int").integer

/-- The expression of a node, to a depth of nesting. -/
def readExpr (literal : Json → Literal) : (depth : Nat) → Json → Expr
  | 0, node => .foreign node
  | depth + 1, node =>
    let expr (name : String) := readExpr literal depth (node.part name)
    let exprs (name : String) := (node.part name).items.map (readExpr literal depth)
    match node.kind with
    | "identifier" => .identifier (node.part "name").string
    | "literal" => .literal (literal (node.part "value"))
    | "binary" =>
      let symbol := (node.part "op").string
      match BinaryOp.ofSymbol? symbol with
      | some op => .binary op (expr "left") (expr "right")
      | none => .otherBinary symbol (expr "left") (expr "right")
    | "unary" =>
      let symbol := (node.part "op").string
      match UnaryOp.ofSymbol? symbol with
      | some op => .unary op (expr "operand")
      | none => .otherUnary symbol (expr "operand")
    | "member" => .index (expr "object") (expr "index")
    | "call" => .call (expr "callee") (node.part "method").string? (exprs "args")
    | "array_literal" => .array (exprs "elements")
    | "if_expr" => .conditional (expr "condition") (expr "consequent") (expr "alternate")
    | _ => .foreign node

/-- The statement of a node, to a depth of nesting. -/
def readStatement (literal : Json → Literal) : (depth : Nat) → Json → Statement
  | 0, node => .foreign node
  | depth + 1, node =>
    let expr (name : String) := readExpr literal depth (node.part name)
    let statements (name : String) := (node.part name).items?.map (·.map (readStatement literal depth))
    match node.kind with
    | "assert" =>
      .assert (expr "condition") (match node.part "message" with
        | .text t => some t
        | _ => none)
    | "variable_declaration" =>
      .declare (node.part "name").string (node.part "mutable").isTruthy (expr "initializer")
    | "assignment" =>
      .assign (node.part "target").string (expr "value") (node.part "mutable").isTruthy
    | "if_statement" =>
      .branch (expr "condition") ((statements "consequent").getD []) (statements "alternate")
    | "for_statement" =>
      .loop (node.part "variable").string (expr "start") (expr "end") (node.part "inclusive").isTruthy
        ((statements "body").getD [])
    | _ => .foreign node

/-- The parameters of a list. -/
def readParams (v : Json) : List Param :=
  v.items.map fun p => ⟨(p.part "name").string, (p.part "index").natural⟩

/-- The expression of a node. -/
def exprOfTree (literal : Json → Literal) (node : Json) : Expr := readExpr literal node.depth node

/-- The circuit of a JSON form. -/
def ofTree (literal : Json → Literal) (v : Json) : Circuit :=
  ⟨readParams (v.part "public_params"), readParams (v.part "private_params"),
    (v.part "statements").items.map (readStatement literal v.depth)⟩

end ArrowCircuit.Circuit
