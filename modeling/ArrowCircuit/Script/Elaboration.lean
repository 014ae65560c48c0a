import ArrowCircuit.Circuit.Basic
import ArrowCircuit.Script.Error
import ArrowCircuit.Script.Parser
import ArrowCircuit.Script.Scope
import ArrowCircuit.Script.StringLiteral

/-!
# From scripts to circuits

Names are resolved and everything outside the accepted subset is refused. Parameters and top-level
declarations share one block, every branch and every loop body opens a new one, and a loop variable
is visible in the bound and the body of its loop only. Faults are reported in the order of the text,
with the line of the node they are about.
-/

namespace ArrowCircuit.Script

/-- The outcome of elaborating a part of a script. -/
abbrev Result (α : Type) := Except Error α

/-- Refuses a construct. -/
def refuse {α : Type} (line : Nat) (r : Rejection) : Result α := .error (.rejected line r)

/-- The integer of a number literal: decimal or hexadecimal, with or without the mark of a big
integer. -/
def numberValue (t : Text) : Except Numeral.Fault Int :=
  let t := if Text.endsWith t "n" then t.dropLast else t
  if Text.asciiLower (t.take 2) = Text.ofString "0x" then Numeral.read 16 t else Numeral.read 10 t

/-- The integer of a number token. -/
def tokenValue (digits : List Char) : Result Int :=
  match numberValue (digits.map Char.toNat) with
  | .ok z => .ok z
  | .error f => .error (.numeral f)

/-- Looks a name up. -/
def resolve (scopes : Scopes) (line : Nat) (name : String) : Result Bool :=
  match scopes.lookup? name with
  | some isMutable => .ok isMutable
  | none => .error (.scope line (.unknown name))

/-- Declares a name in the innermost block. -/
def bindName (scopes : Scopes) (line : Nat) (name : String) (isMutable : Bool) : Result Scopes :=
  match scopes.declare? name isMutable with
  | some scopes => .ok scopes
  | none => refuse line (.alreadyDeclared name)

/-- Whether the term is an identifier that, without its mark, is `name` without its mark. -/
def Term.isVariable (name : String) : Term → Bool
  | .ident _ spelled => (stripMut spelled).1 == (stripMut name).1
  | _ => false

/-! ## Expressions -/

/-- The negation of an expression; an integer literal takes the sign itself. -/
def negate : Expr → Expr
  | .literal (.int z) => .literal (.int (-z))
  | e => .unary .neg e

mutual

/-- The circuit expression of a term. -/
def Term.elaborate (scopes : Scopes) : Term → Result Expr
  | .ident line spelled => do
    let name := (stripMut spelled).1
    let _ ← resolve scopes line name
    return .identifier name
  | .number _ digits => do return .literal (.int (← tokenValue digits))
  | .string _ literal =>
    match stringValue? literal with
    | some t => .ok (.literal (.text t))
    | none => .error .stringLiteral
  | .bool _ b => .ok (.literal (.bool b))
  | .array _ elements => do return .array (← Term.elaborateAll scopes elements)
  | .binary _ op left right => do
    let left ← left.elaborate scopes
    let right ← right.elaborate scopes
    return .binary op left right
  | .unary line op operand =>
    match op with
    | .neg => do return negate (← operand.elaborate scopes)
    | .not => do return .unary .not (← operand.elaborate scopes)
    | .pos => refuse line .unaryPlus
  | .step line .. => refuse line .nestedUpdate
  | .assign line .. => refuse line .nestedAssignment
  | .ternary _ condition consequent alternate => do
    let condition ← condition.elaborate scopes
    let consequent ← consequent.elaborate scopes
    let alternate ← alternate.elaborate scopes
    return .conditional condition consequent alternate
  | .index _ object position => do
    let object ← object.elaborate scopes
    let position ← position.elaborate scopes
    return .index object position
  | .property line object name =>
    if name = "length" then do return .call (← object.elaborate scopes) (some "len") []
    else refuse line (.propertyAccess name)
  | .call _ callee arguments =>
    match callee with
    | .property _ object name => do
      let object ← object.elaborate scopes
      let arguments ← Term.elaborateAll scopes arguments
      return .call object (some name) arguments
    | .ident _ name => do
      -- the name of a function is no variable
      let arguments ← Term.elaborateAll scopes arguments
      return .call (.identifier name) none arguments
    | callee => do
      let callee ← callee.elaborate scopes
      let arguments ← Term.elaborateAll scopes arguments
      return .call callee none arguments

/-- The circuit expressions of a list of terms. -/
def Term.elaborateAll (scopes : Scopes) : List Term → Result (List Expr)
  | [] => .ok []
  | t :: rest => do
    let e ← t.elaborate scopes
    let rest ← Term.elaborateAll scopes rest
    return e :: rest

end

/-! ## Statements -/

/-- The target of an assignment: a mutable variable, with the mark it is spelled with. -/
def assignTarget (scopes : Scopes) (line : Nat) : Term → Result (String × Bool)
  | .ident targetLine spelled => do
    let (name, marked) := stripMut spelled
    if ← resolve scopes targetLine name then return (name, marked)
    else .error (.scope line (.immutable name))
  | _ => refuse line .assignmentTarget

/-- An assertion, from the arguments of its call. -/
def assertion (line : Nat) : List Expr → Result Statement
  | [condition] => .ok (.assert condition none)
  | [condition, .literal (.text message)] => .ok (.assert condition (some message))
  | [_, _] => refuse line .assertMessage
  | arguments => refuse line (.assertArguments arguments.length)

/-- The operation of a compound assignment. -/
def AssignOp.binary? : AssignOp → Option BinaryOp
  | .plain => none
  | .add => some .add
  | .sub => some .sub
  | .mul => some .mul

/-- A statement that is an expression: an assertion, an assignment or a step. -/
def expressionStatement (scopes : Scopes) (line : Nat) : Term → Result Statement
  | .call callLine (.ident _ "assert") arguments => do
    assertion callLine (← Term.elaborateAll scopes arguments)
  | .assign assignLine op target value => do
    let (name, marked) ← assignTarget scopes assignLine target
    let value ← value.elaborate scopes
    match op.binary? with
    | none => return .assign name value marked
    | some op => return .assign name (.binary op (.identifier name) value) marked
  | .step stepLine direction target => do
    let (name, marked) ← assignTarget scopes stepLine target
    let op := match direction with
      | .up => BinaryOp.add
      | .down => BinaryOp.sub
    return .assign name (.binary op (.identifier name) (.literal (.int 1))) marked
  | _ => refuse line .expressionStatement

/-- The name and the initial value of a declarator, the name split from its mark. -/
def Declarator.split (d : Declarator) : Result (String × Bool × Option Term) :=
  match d.binder with
  | .name spelled => .ok ((stripMut spelled).1, (stripMut spelled).2, d.initial)
  | .pattern => refuse d.line .destructuring

/-- A declaration and the names visible behind it. -/
def bindDeclaration (scopes : Scopes) (line : Nat) : List Declarator → Result (Statement × Scopes)
  | [d] => do
    let (name, isMutable, initial) ← d.split
    match initial with
    | none => refuse line .missingInitializer
    | some term =>
      let initial ← term.elaborate scopes
      let scopes ← bindName scopes line name isMutable
      return (.declare name isMutable initial, scopes)
  | _ => refuse line .severalDeclarators

/-- What a loop head says: `counter` runs from `first` to `last`. -/
structure LoopHead where
  counter : String
  first : Term
  last : Term
  inclusive : Bool

/-- Whether an update adds one to the loop variable. -/
def isIncrement (counter : String) : Term → Result Bool
  | .step _ .up target => .ok (target.isVariable counter)
  | .assign _ .plain target (.binary _ .add left (.number _ digits)) =>
    if target.isVariable counter && left.isVariable counter then do
      return (← tokenValue digits) == 1
    else .ok false
  | _ => .ok false

/-- The comparison of a loop test. -/
def loopTest (counter : String) (line : Nat) : Option LoopTest → Result (Term × Bool)
  | none => refuse line .loopTest
  | some ⟨testLine, .binary _ op left right⟩ =>
    match op with
    | .lt | .le =>
      if left.isVariable counter then .ok (right, op == .le) else refuse testLine .loopVariable
    | .gt | .ge => refuse testLine .loopOperator
    | _ => refuse testLine .loopTest
  | some test => refuse test.line .loopTest

/-- Reads a loop head `let i = first; i < last; i++`. -/
def loopHead (line : Nat) (init : LoopInit) (test : Option LoopTest) (update : Option Term) :
    Result LoopHead :=
  match init with
  | .declaration d => do
    let (counter, _, initial) ← d.split
    match initial with
    | none => refuse line .loopInit
    | some first =>
      let (last, inclusive) ← loopTest counter line test
      match update with
      | none => refuse line .loopUpdate
      | some update =>
        if ← isIncrement counter update then return ⟨counter, first, last, inclusive⟩
        else refuse line .loopUpdate
  | _ => refuse line .loopInit

mutual

/-- The circuit statements of a statement, and the names visible behind it. A block is taken only
where it is the body of a branch or a loop. -/
def Stmt.elaborate (scopes : Scopes) (isBody : Bool) : Stmt → Result (List Statement × Scopes)
  | .declaration line declarators => do
    let (statement, scopes) ← bindDeclaration scopes line declarators
    return ([statement], scopes)
  | .expression line term => do return ([← expressionStatement scopes line term], scopes)
  | .branch _ condition consequent alternate => do
    let condition ← condition.elaborate scopes
    let (consequent, _) ← consequent.elaborate ([] :: scopes) true
    match alternate with
    | none => return ([.branch condition consequent none], scopes)
    | some alternate =>
      let (alternate, _) ← alternate.elaborate ([] :: scopes) true
      return ([.branch condition consequent (some alternate)], scopes)
  | .loop line init test update body => do
    let head ← loopHead line init test update
    let first ← head.first.elaborate scopes
    let inner ← bindName ([] :: scopes) line head.counter false
    let last ← head.last.elaborate inner
    let (body, _) ← body.elaborate ([] :: inner) true
    return ([.loop head.counter first last head.inclusive body], scopes)
  | .whileLoop line .. => refuse line .whileLoop
  | .result line _ => refuse line .returnStatement
  | .block line statements =>
    if isBody then Stmt.elaborateAll scopes statements else refuse line .nestedBlock

/-- The circuit statements of a block, declarations being visible to what follows them. -/
def Stmt.elaborateAll (scopes : Scopes) : List Stmt → Result (List Statement × Scopes)
  | [] => .ok ([], scopes)
  | s :: rest => do
    let (first, scopes) ← s.elaborate scopes false
    let (rest, scopes) ← Stmt.elaborateAll scopes rest
    return (first ++ rest, scopes)

end

/-! ## Parameters and the whole script -/

/-- The parameters of one pattern; `seen` holds the names before it, `index` the next position. -/
def patternParams (seen : List String) (index : Nat) : List (Nat × String) → Result (List Param)
  | [] => .ok []
  | (line, name) :: rest =>
    if name ∈ seen then refuse line (.duplicateParameter name)
    else do
      let rest ← patternParams (name :: seen) (index + 1) rest
      return ⟨name, index⟩ :: rest

/-- The parameters of one group. -/
def groupParams (label : String) (seen : List String) : Parameter → Result (List Param)
  | .pattern _ names => patternParams seen 0 names
  | .plain line _ => refuse line (.parameterShape label)

/-- The public and the private parameters. -/
def Parameters.elaborate : Parameters → Result (List Param × List Param)
  | .bare line _ => refuse line (.parameterCount 1)
  | .listed _ [first, second] => do
    let publicParams ← groupParams "publicArgs" [] first
    let privateParams ← groupParams "privateArgs" (publicParams.map (·.name)) second
    return (publicParams, privateParams)
  | .listed line items => refuse line (.parameterCount items.length)

/-- The statements of a body; an expression is asserted. -/
def Body.elaborate (scopes : Scopes) : Body → Result (List Statement)
  | .block statements => do return (← Stmt.elaborateAll scopes statements).1
  | .expression term => do return [.assert (← term.elaborate scopes) none]

/-- The circuit of a function. -/
def Definition.elaborate (d : Definition) : Result Circuit := do
  let (publicParams, privateParams) ← d.parameters.elaborate
  let scopes : Scopes := [(publicParams ++ privateParams).map fun p => (p.name, false)]
  let statements ← d.body.elaborate scopes
  return ⟨publicParams, privateParams, statements⟩

end ArrowCircuit.Script

namespace ArrowCircuit

/-- Reads a script as a circuit. -/
def Circuit.parse (text : String) : Except Script.Error Circuit :=
  match Script.Definition.parse text.toList with
  | .error f => .error (.scan f)
  | .ok d => d.elaborate

end ArrowCircuit
