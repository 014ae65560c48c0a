import ArrowCircuit.Circuit.Basic
import ArrowCircuit.Text.Escaped

/-!
# Noir programs

A circuit is printed as a Noir program with a single function `main`. Private parameters come first,
so that the positions the Noir compiler gives them agree with the layout of the witness; public ones
are marked `pub`. Operands that are operations or choices themselves are put in parentheses.
-/

namespace ArrowCircuit.Noir

/-- Why a circuit has no Noir text. -/
inductive Fault where
  /-- A node of the named class stands where it does not belong. -/
  | cannotRender (nodeClass : String)
  | numeral (fault : Numeral.Fault)
  deriving DecidableEq, Repr

/-- The wording of a fault. -/
def Fault.message : Fault → String
  | .cannotRender nodeClass => "cannot render " ++ nodeClass
  | .numeral f => f.message

/-- The classes of nodes by their tags. -/
def nodeClasses : List (String × String) :=
  [("identifier", "Identifier"), ("literal", "Literal"), ("binary", "BinaryExpr"),
    ("unary", "UnaryExpr"), ("member", "MemberExpr"), ("call", "CallExpr"),
    ("array_literal", "ArrayLiteral"), ("if_expr", "IfExpr"), ("assert", "AssertStmt"),
    ("variable_declaration", "VariableDeclaration"), ("assignment", "Assignment"),
    ("if_statement", "IfStatement"), ("for_statement", "ForStatement")]

/-- The class of a node with a tag. -/
def nodeClass (kind : String) : String := (nodeClasses.lookup kind).getD kind

/-- The outcome of printing. -/
abbrev Result := Except Fault

/-- The symbol of an operator in Noir. -/
def symbol : BinaryOp → String
  | .and => "&"
  | .or => "|"
  | op => op.symbol

/-- A literal. -/
def literal : Literal → Result String
  | .bool b => .ok (if b then "true" else "false")
  | .int z =>
    match Numeral.decimal? z with
    | .ok s => .ok s
    | .error f => .error (.numeral f)
  | .text t => .ok (Text.escaped t)

/-- Whether an expression is put in parentheses where it is an operand. -/
def isCompound : Expr → Bool
  | .binary .. | .otherBinary .. | .conditional .. => true
  | _ => false

/-- Puts the text of an operand in parentheses if it needs them. -/
def parenthesize (e : Expr) (text : String) : String :=
  if isCompound e then "(" ++ text ++ ")" else text

mutual

/-- The text of an expression. -/
def expr : Expr → Result String
  | .identifier name => .ok name
  | .literal v => literal v
  | .binary op l r => do
    let left ← expr l
    let right ← expr r
    return parenthesize l left ++ " " ++ symbol op ++ " " ++ parenthesize r right
  | .otherBinary op l r => do
    let left ← expr l
    let right ← expr r
    return parenthesize l left ++ " " ++ op ++ " " ++ parenthesize r right
  | .unary op e => do
    let operand ← expr e
    return op.symbol ++ parenthesize e operand
  | .otherUnary op e => do
    let operand ← expr e
    return op ++ parenthesize e operand
  | .index object position => do
    let object ← expr object
    let position ← expr position
    return object ++ "[" ++ position ++ "]"
  | .call callee method arguments => do
    let arguments ← exprs arguments
    let text ← expr callee
    let arguments := "(" ++ ", ".intercalate arguments ++ ")"
    match method with
    | none | some "" => return text ++ arguments
    | some name => return parenthesize callee text ++ "." ++ name ++ arguments
  | .array elements => do
    let elements ← exprs elements
    return "[" ++ ", ".intercalate elements ++ "]"
  | .conditional condition consequent alternate => do
    let condition ← expr condition
    let consequent ← expr consequent
    let alternate ← expr alternate
    return "if " ++ condition ++ " \x7b " ++ consequent ++ " \x7d else \x7b " ++ alternate ++ " \x7d"
  | .foreign node => .error (.cannotRender (nodeClass node.kind))

/-- The texts of a list of expressions. -/
def exprs : List Expr → Result (List String)
  | [] => .ok []
  | e :: rest => do
    let first ← expr e
    let rest ← exprs rest
    return first :: rest

end

/-- The blanks at the start of a line at a depth of nesting. -/
def pad (depth : Nat) : String := String.ofList (List.replicate (4 * depth) ' ')

mutual

/-- The lines of a statement. -/
def statement (depth : Nat) : Statement → Result (List String)
  | .assert condition message => do
    let condition ← expr condition
    match message with
    | none => return [pad depth ++ "assert(" ++ condition ++ ");"]
    | some t => return [pad depth ++ "assert(" ++ condition ++ ", " ++ Text.escaped t ++ ");"]
  | .declare name isMutable initial => do
    let initial ← expr initial
    let mark := if isMutable then "mut " else ""
    return [pad depth ++ "let " ++ mark ++ name ++ " = " ++ initial ++ ";"]
  | .assign target value _ => do
    let value ← expr value
    return [pad depth ++ target ++ " = " ++ value ++ ";"]
  | .branch condition consequent alternate => do
    let condition ← expr condition
    let consequent ← statements (depth + 1) consequent
    let opening := pad depth ++ "if " ++ condition ++ " \x7b"
    match alternate with
    | none | some [] => return opening :: consequent ++ [pad depth ++ "\x7d"]
    | some (s :: rest) =>
      let first ← statement (depth + 1) s
      let rest ← statements (depth + 1) rest
      return opening :: consequent ++ [pad depth ++ "\x7d else \x7b"] ++ first ++ rest ++
        [pad depth ++ "\x7d"]
  | .loop counter first last inclusive body => do
    let first ← expr first
    let last ← expr last
    let body ← statements (depth + 1) body
    let range := if inclusive then "..=" else ".."
    return (pad depth ++ "for " ++ counter ++ " in " ++ first ++ range ++ last ++ " \x7b") :: body ++
      [pad depth ++ "\x7d"]
  | .foreign node => .error (.cannotRender (nodeClass node.kind))

/-- The lines of a list of statements. -/
def statements (depth : Nat) : List Statement → Result (List String)
  | [] => .ok []
  | s :: rest => do
    let first ← statement depth s
    let rest ← statements depth rest
    return first ++ rest

end

/-- The parameters of `main`. -/
def parameters (c : Circuit) : List String :=
  c.privateParams.map (·.name ++ ": Field") ++ c.publicParams.map (·.name ++ ": pub Field")

/-- The Noir program of a circuit. -/
def program (c : Circuit) : Result String := do
  let body ← statements 1 c.statements
  let lines := ("fn main(" ++ ", ".intercalate (parameters c) ++ ") \x7b") :: body ++ ["\x7d"]
  return "\n".intercalate lines ++ "\n"

end ArrowCircuit.Noir
