import ArrowCircuit.Script.Lexer
import ArrowCircuit.Script.Term

/-!
# Reading scripts

A predictive parser with one token of look-ahead. Consuming a token also reads the next one, behind
the context that the consumed token makes, so that the choice between keyword and name is the
grammar's. The first token that cannot continue the script is reported.

The grammar takes the longest phrase it can: an `else` belongs to the nearest `if`, an operator
behind an operand continues the expression, and `return` takes an expression that follows it. The
semicolon behind a statement may be left out.

Every function has a fuel argument that bounds the depth of its calls. `Definition.parse` gives more
fuel than a text of its length can use.
-/

namespace ArrowCircuit.Script

/-- The look-ahead token and the text behind it. -/
structure State where
  token : Token
  cursor : Cursor
  deriving DecidableEq, Repr

/-- A phrase with the line of its first token, parentheses included. -/
structure Phrase where
  start : Nat
  term : Term
  deriving Repr

/-- The outcome of reading a part of a script. -/
abbrev Parse := Except ScanFault

namespace State

/-- The kind of the look-ahead token. -/
def terminal (s : State) : Terminal := s.token.terminal

/-- The line of the look-ahead token. -/
def line (s : State) : Nat := s.token.position.line

/-- The characters of the look-ahead token. -/
def lexeme (s : State) : String := String.ofList s.token.lexeme

/-- Consumes the look-ahead token, after which `context` holds. -/
def consume (s : State) (context : Context) : Parse State :=
  match s.cursor.next context (some s.token) with
  | .ok (token, cursor) => .ok ⟨token, cursor⟩
  | .error e => .error e

/-- Reports the look-ahead token. -/
def reject {α : Type} (s : State) : Parse α := .error (.unexpectedToken s.token)

/-- Consumes a token of the given kind, after which `context` holds. -/
def expect (s : State) (t : Terminal) (context : Context) : Parse State :=
  if s.terminal = t then s.consume context else s.reject

end State

/-! ## Operators -/

/-- The operator of a terminal between two operands. -/
def binaryOp? : Terminal → Option BinaryOp
  | .or => some .or
  | .and => some .and
  | .strictEq | .eq => some .eq
  | .strictNe | .ne => some .ne
  | .le => some .le
  | .ge => some .ge
  | .lt => some .lt
  | .gt => some .gt
  | .plus => some .add
  | .minus => some .sub
  | .times => some .mul
  | .slash => some .div
  | .percent => some .mod
  | _ => none

/-- How tightly an operator binds; all of them group to the left. -/
def bindingLevel : BinaryOp → Nat
  | .or => 0
  | .and => 1
  | .eq | .ne => 2
  | .lt | .le | .gt | .ge => 3
  | .add | .sub => 4
  | .mul | .div | .mod => 5

/-- The assignment of a terminal. -/
def assignOp? : Terminal → Option AssignOp
  | .assign => some .plain
  | .plusAssign => some .add
  | .minusAssign => some .sub
  | .timesAssign => some .mul
  | _ => none

/-- The operator of a terminal before an operand. -/
def unaryOp? : Terminal → Option PrefixedOp
  | .minus => some .neg
  | .plus => some .pos
  | .bang => some .not
  | _ => none

/-- The step of a terminal. -/
def step? : Terminal → Option Step
  | .increment => some .up
  | .decrement => some .down
  | _ => none

/-! ## Expressions -/

mutual

/-- An assignment or a conditional expression. Assignments group to the right. -/
def parseExpr : (fuel : Nat) → State → Parse (Phrase × State)
  | 0, s => s.reject
  | fuel + 1, s => do
    let (left, s) ← parseConditional fuel s
    match assignOp? s.terminal with
    | none => return (left, s)
    | some op =>
      let s ← s.consume .operator
      let (right, s) ← parseExpr fuel s
      return (⟨left.start, .assign left.start op left.term right.term⟩, s)

/-- A choice `c ? a : b`, or a binary expression. -/
def parseConditional : (fuel : Nat) → State → Parse (Phrase × State)
  | 0, s => s.reject
  | fuel + 1, s => do
    let (condition, s) ← parseBinary fuel 0 s
    if s.terminal = .question then
      let s ← s.consume .operator
      let (consequent, s) ← parseExpr fuel s
      let s ← s.expect .colon .operator
      let (alternate, s) ← parseExpr fuel s
      return (⟨condition.start,
        .ternary condition.start condition.term consequent.term alternate.term⟩, s)
    else return (condition, s)

/-- An expression of operators that bind at least as tightly as `level`. -/
def parseBinary : (fuel : Nat) → (level : Nat) → State → Parse (Phrase × State)
  | 0, _, s => s.reject
  | fuel + 1, level, s => do
    let (left, s) ← parseUnary fuel s
    parseOperators fuel level left s

/-- Extends a left operand by the operators that follow it. -/
def parseOperators : (fuel : Nat) → (level : Nat) → Phrase → State → Parse (Phrase × State)
  | 0, _, _, s => s.reject
  | fuel + 1, level, left, s =>
    match binaryOp? s.terminal with
    | none => .ok (left, s)
    | some op =>
      if bindingLevel op < level then .ok (left, s)
      else do
        let s ← s.consume .operator
        let (right, s) ← parseBinary fuel (bindingLevel op + 1) s
        parseOperators fuel level ⟨left.start, .binary left.start op left.term right.term⟩ s

/-- An operand with the operators before it. -/
def parseUnary : (fuel : Nat) → State → Parse (Phrase × State)
  | 0, s => s.reject
  | fuel + 1, s =>
    match unaryOp? s.terminal, step? s.terminal with
    | some op, _ => do
      let line := s.line
      let s ← s.consume .operator
      let (operand, s) ← parseUnary fuel s
      return (⟨line, .unary line op operand.term⟩, s)
    | none, some direction => do
      let line := s.line
      let s ← s.consume .operator
      let (target, s) ← parseUnary fuel s
      return (⟨line, .step line direction target.term⟩, s)
    | none, none => do
      let (object, s) ← parsePrimary fuel s
      let (operand, s) ← parseMembers fuel object s
      match step? s.terminal with
      | none => return (operand, s)
      | some direction =>
        let s ← s.consume .update
        return (⟨operand.start, .step operand.start direction operand.term⟩, s)

/-- Extends an operand by the indices, properties and calls that follow it. -/
def parseMembers : (fuel : Nat) → Phrase → State → Parse (Phrase × State)
  | 0, _, s => s.reject
  | fuel + 1, object, s =>
    match s.terminal with
    | .leftBracket => do
      let s ← s.consume .operator
      let (position, s) ← parseExpr fuel s
      let s ← s.expect .rightBracket .operand
      parseMembers fuel ⟨object.start, .index object.start object.term position.term⟩ s
    | .dot => do
      let s ← s.consume .dot
      let name := s.lexeme
      let s ← s.expect .name .operand
      parseMembers fuel ⟨object.start, .property object.start object.term name⟩ s
    | .leftParen => do
      let s ← s.consume .argumentsOpen
      let (arguments, s) ← parseArguments fuel .rightParen s
      parseMembers fuel ⟨object.start, .call object.start object.term arguments⟩ s
    | _ => .ok (object, s)

/-- A name, a literal, a group or an array. -/
def parsePrimary : (fuel : Nat) → State → Parse (Phrase × State)
  | 0, s => s.reject
  | fuel + 1, s =>
    let line := s.line
    match s.terminal with
    | .name => do
      let s' ← s.consume .operand
      return (⟨line, .ident line s.lexeme⟩, s')
    | .number => do
      let s' ← s.consume .operand
      return (⟨line, .number line s.token.lexeme⟩, s')
    | .string => do
      let s' ← s.consume .operand
      return (⟨line, .string line s.token.lexeme⟩, s')
    | .trueWord => do
      let s ← s.consume .operand
      return (⟨line, .bool line true⟩, s)
    | .falseWord => do
      let s ← s.consume .operand
      return (⟨line, .bool line false⟩, s)
    | .leftParen => do
      let s ← s.consume .operator
      let (inner, s) ← parseExpr fuel s
      let s ← s.expect .rightParen .operand
      return (⟨line, inner.term⟩, s)
    | .leftBracket => do
      let s ← s.consume .arrayOpen
      let (elements, s) ← parseArguments fuel .rightBracket s
      return (⟨line, .array line elements⟩, s)
    | _ => s.reject

/-- Expressions between commas, up to and including the closing bracket; there may be none. -/
def parseArguments : (fuel : Nat) → (closing : Terminal) → State → Parse (List Term × State)
  | 0, _, s => s.reject
  | fuel + 1, closing, s =>
    if s.terminal = closing then do
      let s ← s.consume .operand
      return ([], s)
    else parseMoreArguments fuel closing s

/-- One or more expressions between commas, up to and including the closing bracket. -/
def parseMoreArguments : (fuel : Nat) → (closing : Terminal) → State → Parse (List Term × State)
  | 0, _, s => s.reject
  | fuel + 1, closing, s => do
    let (first, s) ← parseExpr fuel s
    if s.terminal = .comma then
      let s ← s.consume .operator
      let (rest, s) ← parseMoreArguments fuel closing s
      return (first.term :: rest, s)
    else
      let s ← s.expect closing .operand
      return ([first.term], s)

end

/-! ## Patterns and declarations -/

/-- The names of a pattern behind a comma, up to and including the closing bracket. -/
def parsePatternNames : (fuel : Nat) → State → Parse (List (Nat × String) × State)
  | 0, s => s.reject
  | fuel + 1, s => do
    let first := (s.line, s.lexeme)
    let s ← s.expect .name .patternName
    if s.terminal = .comma then
      let s ← s.consume .patternComma
      let (rest, s) ← parsePatternNames fuel s
      return (first :: rest, s)
    else
      let s ← s.expect .rightBracket .patternClose
      return ([first], s)

/-- A pattern of names between brackets. -/
def parsePattern (fuel : Nat) (s : State) : Parse (List (Nat × String) × State) := do
  let s ← s.expect .leftBracket .patternOpen
  if s.terminal = .rightBracket then
    let s ← s.consume .patternClose
    return ([], s)
  else parsePatternNames fuel s

/-- A binder with its initial value, if it has one. -/
def parseDeclarator (fuel : Nat) (s : State) : Parse (Declarator × State) := do
  let line := s.line
  let (binder, s) ←
    if s.terminal = .name then do
      let s' ← s.consume .declaredName
      pure (Binder.name s.lexeme, s')
    else do
      let (_, s) ← parsePattern fuel s
      pure (Binder.pattern, s)
  if s.terminal = .assign then
    let s ← s.consume .operator
    let (initial, s) ← parseExpr fuel s
    return (⟨line, binder, some initial.term⟩, s)
  else return (⟨line, binder, none⟩, s)

/-- One or more binders between commas. -/
def parseDeclarators : (fuel : Nat) → State → Parse (List Declarator × State)
  | 0, s => s.reject
  | fuel + 1, s => do
    let (first, s) ← parseDeclarator fuel s
    if s.terminal = .comma then
      let s ← s.consume .binder
      let (rest, s) ← parseDeclarators fuel s
      return (first :: rest, s)
    else return ([first], s)

/-- Takes the semicolon that may end a statement. -/
def parseEnd (s : State) : Parse State :=
  if s.terminal = .semicolon then s.consume .statementEnd else .ok s

/-! ## Statements -/

/-- Whether the terminal introduces a declaration. -/
def isBinderWord : Terminal → Bool
  | .letWord | .constWord | .varWord => true
  | _ => false

/-- The first part of a loop head, up to and including its semicolon. -/
def parseLoopInit (fuel : Nat) (s : State) : Parse (LoopInit × State) := do
  if s.terminal = .semicolon then
    let s ← s.consume .loopFirst
    return (.absent, s)
  else if isBinderWord s.terminal then
    let s ← s.consume .binder
    let (declarator, s) ← parseDeclarator fuel s
    let s ← s.expect .semicolon .loopFirst
    return (.declaration declarator, s)
  else
    let (phrase, s) ← parseExpr fuel s
    let s ← s.expect .semicolon .loopFirst
    return (.expression phrase.term, s)

/-- The test of a loop head, up to and including its semicolon. -/
def parseLoopTest (fuel : Nat) (s : State) : Parse (Option LoopTest × State) := do
  if s.terminal = .semicolon then
    let s ← s.consume .argumentsOpen
    return (none, s)
  else
    let (phrase, s) ← parseExpr fuel s
    let s ← s.expect .semicolon .argumentsOpen
    return (some ⟨phrase.start, phrase.term⟩, s)

/-- The update of a loop head, up to and including the closing parenthesis. -/
def parseLoopUpdate (fuel : Nat) (s : State) : Parse (Option Term × State) := do
  if s.terminal = .rightParen then
    let s ← s.consume .head
    return (none, s)
  else
    let (phrase, s) ← parseExpr fuel s
    let s ← s.expect .rightParen .head
    return (some phrase.term, s)

mutual

/-- One statement. -/
def parseStatement : (fuel : Nat) → State → Parse (Stmt × State)
  | 0, s => s.reject
  | fuel + 1, s =>
    let line := s.line
    match s.terminal with
    | .letWord | .constWord | .varWord => do
      let s ← s.consume .binder
      let (declarators, s) ← parseDeclarators fuel s
      let s ← parseEnd s
      return (.declaration line declarators, s)
    | .ifWord => do
      let s ← s.consume .headWord
      let s ← s.expect .leftParen .operator
      let (condition, s) ← parseExpr fuel s
      let s ← s.expect .rightParen .head
      let (consequent, s) ← parseStatement fuel s
      if s.terminal = .elseWord then
        let s ← s.consume .head
        let (alternate, s) ← parseStatement fuel s
        return (.branch line condition.term consequent (some alternate), s)
      else return (.branch line condition.term consequent none, s)
    | .forWord => do
      let s ← s.consume .headWord
      let s ← s.expect .leftParen .loopOpen
      let (init, s) ← parseLoopInit fuel s
      let (test, s) ← parseLoopTest fuel s
      let (update, s) ← parseLoopUpdate fuel s
      let (body, s) ← parseStatement fuel s
      return (.loop line init test update body, s)
    | .whileWord => do
      let s ← s.consume .headWord
      let s ← s.expect .leftParen .operator
      let (test, s) ← parseExpr fuel s
      let s ← s.expect .rightParen .head
      let (body, s) ← parseStatement fuel s
      return (.whileLoop line test.term body, s)
    | .returnWord => do
      let s ← s.consume .returnWord
      if s.terminal.startsOperand then
        let (value, s) ← parseExpr fuel s
        let s ← parseEnd s
        return (.result line (some value.term), s)
      else
        let s ← parseEnd s
        return (.result line none, s)
    | .leftBrace => do
      let (statements, s) ← parseBlock fuel s
      return (.block line statements, s)
    | t =>
      if t.startsOperand then do
        let (phrase, s) ← parseExpr fuel s
        let s ← parseEnd s
        return (.expression phrase.start phrase.term, s)
      else s.reject

/-- Statements between braces. -/
def parseBlock : (fuel : Nat) → State → Parse (List Stmt × State)
  | 0, s => s.reject
  | fuel + 1, s => do
    let s ← s.expect .leftBrace .blockOpen
    parseStatements fuel s

/-- Statements up to and including the closing brace. -/
def parseStatements : (fuel : Nat) → State → Parse (List Stmt × State)
  | 0, s => s.reject
  | fuel + 1, s =>
    if s.terminal = .rightBrace then do
      let s ← s.consume .blockClose
      return ([], s)
    else do
      let (first, s) ← parseStatement fuel s
      let (rest, s) ← parseStatements fuel s
      return (first :: rest, s)

end

/-! ## The function -/

/-- One parameter: a pattern or a plain name. -/
def parseParameter (fuel : Nat) (s : State) : Parse (Parameter × State) := do
  let line := s.line
  if s.terminal = .name then
    let s' ← s.consume .plainParameter
    return (.plain line s.lexeme, s')
  else
    let (names, s) ← parsePattern fuel s
    return (.pattern line names, s)

/-- One or more parameters, up to and including the closing parenthesis. -/
def parseParameters : (fuel : Nat) → State → Parse (List Parameter × State)
  | 0, s => s.reject
  | fuel + 1, s => do
    let (first, s) ← parseParameter fuel s
    if s.terminal = .comma then
      let s ← s.consume .binder
      let (rest, s) ← parseParameters fuel s
      return (first :: rest, s)
    else
      let s ← s.expect .rightParen .parametersClose
      return ([first], s)

/-- The parameters between parentheses. -/
def parseParameterList (fuel : Nat) (s : State) : Parse (Parameters × State) := do
  let line := s.line
  let s ← s.expect .leftParen .parametersOpen
  if s.terminal = .rightParen then
    let s ← s.consume .parametersClose
    return (.listed line [], s)
  else
    let (items, s) ← parseParameters fuel s
    return (.listed line items, s)

/-- The body behind the arrow. -/
def parseArrowBody (fuel : Nat) (s : State) : Parse (Body × State) := do
  if s.terminal = .leftBrace then
    let (statements, s) ← parseBlock fuel s
    return (.block statements, s)
  else
    let (phrase, s) ← parseExpr fuel s
    return (.expression phrase.term, s)

/-- The function of a script. -/
def parseDefinition (fuel : Nat) (s : State) : Parse (Definition × State) := do
  match s.terminal with
  | .name =>
    let s' ← s.consume .loneName
    let s' ← s'.expect .arrow .arrow
    let (body, s') ← parseArrowBody fuel s'
    return (⟨.bare s.line s.lexeme, body⟩, s')
  | .functionWord =>
    let s ← s.consume .functionWord
    let s ← if s.terminal = .name then s.consume .functionName else .ok s
    let (parameters, s) ← parseParameterList fuel s
    let (statements, s) ← parseBlock fuel s
    return (⟨parameters, .block statements⟩, s)
  | _ =>
    let (parameters, s) ← parseParameterList fuel s
    let s ← s.expect .arrow .arrow
    let (body, s) ← parseArrowBody fuel s
    return (⟨parameters, body⟩, s)

/-- The fuel for a text of `length` characters: no phrase of a token calls deeper than this. -/
def parseFuel (length : Nat) : Nat := 16 * (length + 2)

/-- Reads a whole script. -/
def Definition.parse (text : List Char) : Parse Definition := do
  let (token, cursor) ← Cursor.next .start none ⟨text, ⟨1, 1⟩⟩
  let (definition, s) ← parseDefinition (parseFuel text.length) ⟨token, cursor⟩
  let s ← if s.terminal = .semicolon then s.consume .final else .ok s
  if s.terminal = .endOfText then .ok definition else s.reject

end ArrowCircuit.Script
