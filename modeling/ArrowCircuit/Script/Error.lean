import ArrowCircuit.Script.Lexer
import ArrowCircuit.Number.Numeral

/-!
# Faults of scripts

Why a script is not a circuit: a fault of its token structure, a construct outside the accepted
subset, a name that is not in scope, or a literal without a value.
-/

namespace ArrowCircuit.Script

/-- A construct that circuits do not have. -/
inductive Rejection where
  | parameterCount (count : Nat)
  | parameterShape (label : String)
  | duplicateParameter (name : String)
  | severalDeclarators
  | destructuring
  | missingInitializer
  | alreadyDeclared (name : String)
  | expressionStatement
  | assertArguments (count : Nat)
  | assertMessage
  | assignmentTarget
  | loopInit
  | loopTest
  | loopOperator
  | loopVariable
  | loopUpdate
  | whileLoop
  | returnStatement
  | nestedBlock
  | unaryPlus
  | propertyAccess (name : String)
  | nestedAssignment
  | nestedUpdate
  deriving DecidableEq, Repr

/-- The wording of a rejection. -/
def Rejection.message : Rejection → String
  | .parameterCount n =>
    "Circuit function must have exactly 2 parameters: (publicArgs, privateArgs), got " ++
      Numeral.decimalNat n
  | .parameterShape label =>
    "Parameter " ++ label ++ " must be an array destructuring pattern ([a, b, ...])"
  | .duplicateParameter name => "Duplicate parameter name '" ++ name ++ "'"
  | .severalDeclarators => "Variable declaration must declare a single identifier"
  | .destructuring => "Destructuring declarations are not supported"
  | .missingInitializer => "Variable declaration must have an initializer"
  | .alreadyDeclared name => "Variable '" ++ name ++ "' is already declared"
  | .expressionStatement =>
    "Unsupported expression statement (only assert(...) calls and assignments are allowed)"
  | .assertArguments n =>
    "assert() takes a condition and an optional message, got " ++ Numeral.decimalNat n ++ " arguments"
  | .assertMessage => "assert() message must be a string literal"
  | .assignmentTarget => "Assignment target must be a plain identifier"
  | .loopInit => "For loop init must be a variable declaration (let i = start)"
  | .loopTest => "For loop test must compare the loop variable (i < end or i <= end)"
  | .loopOperator => "For loop test must use < or <= operator"
  | .loopVariable => "For loop test must compare the loop variable"
  | .loopUpdate => "For loop update must be i++ or i = i + 1 or ++i"
  | .whileLoop => "Unsupported statement: while loop (use a bounded for loop)"
  | .returnStatement => "Unsupported statement: return"
  | .nestedBlock => "Unsupported statement: nested block"
  | .unaryPlus => "Unsupported unary operator: +"
  | .propertyAccess name => "Unsupported property access: ." ++ name
  | .nestedAssignment => "Assignment is not supported inside expressions"
  | .nestedUpdate => "Update expressions are only supported as statements or for-loop updates"

/-- A name that cannot be used as it is. -/
inductive ScopeFault where
  | unknown (name : String)
  | immutable (name : String)
  deriving DecidableEq, Repr

/-- The wording of a scope fault. -/
def ScopeFault.message : ScopeFault → String
  | .unknown name => "Unknown identifier '" ++ name ++ "'"
  | .immutable name =>
    "Cannot assign to immutable variable '" ++ name ++ "' (declare it with the mut_ prefix)"

/-- Why a script is not a circuit. -/
inductive Error where
  | scan (fault : ScanFault)
  | rejected (line : Nat) (rejection : Rejection)
  | scope (line : Nat) (fault : ScopeFault)
  | stringLiteral
  | numeral (fault : Numeral.Fault)
  deriving DecidableEq, Repr

/-- Code points that end a line in a message; the rest of the message is left out. -/
def isLineEnd (c : Char) : Bool :=
  let n := c.toNat
  (0xa ≤ n && n ≤ 0xd) || (0x1c ≤ n && n ≤ 0x1e) || n == 0x85 || n == 0x2028 || n == 0x2029

/-- The text of a message up to its first line end. -/
def firstLine (s : String) : String := String.ofList (s.toList.takeWhile fun c => !isLineEnd c)

/-- The place of a fault, as it is added to a message. -/
def Position.describe (p : Position) : String :=
  "line " ++ Numeral.decimalNat p.line ++ ", column " ++ Numeral.decimalNat p.column

/-- The wording of a fault of the token structure. -/
def ScanFault.message : ScanFault → String
  | .unexpectedToken t =>
    "Syntax error: Unexpected token Token(" ++ Text.quoted (Text.ofString t.terminal.label) ++ ", " ++
      Text.quoted (Text.ofString (String.ofList t.lexeme)) ++ ") at " ++ t.position.describe ++
      ". (" ++ t.position.describe ++ ")"
  | .unexpectedCharacter c p =>
    "Syntax error: " ++
      firstLine ("No terminal matches '" ++ String.ofList [c] ++
        "' in the current parser context, at line " ++ Numeral.decimalNat p.line ++ " col " ++
        Numeral.decimalNat p.column) ++
      " (" ++ p.describe ++ ")"

/-- A message with the line it is about. -/
def atLine (message : String) (line : Nat) : String :=
  message ++ " (line " ++ Numeral.decimalNat line ++ ")"

/-- The wording of an error. -/
def Error.message : Error → String
  | .scan fault => fault.message
  | .rejected line r => atLine r.message line
  | .scope line f => atLine f.message line
  | .stringLiteral => "malformed string literal"
  | .numeral f => f.message

end ArrowCircuit.Script
