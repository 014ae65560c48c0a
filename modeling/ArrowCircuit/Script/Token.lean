/-!
# Tokens of circuit scripts

A script is a function in a small subset of JavaScript. This module holds its terminals, the rule
by which the previous token decides which terminals may come next, and tokens with their places.

A word is a keyword only where that keyword may stand: `let let = a` declares a variable `let`. So
the reader of tokens asks `Context.accepts` before it settles on a terminal.
-/

namespace ArrowCircuit.Script

/-- The kinds of token. -/
inductive Terminal where
  | semicolon | arrow | functionWord | comma | leftParen | rightParen | leftBracket | rightBracket
  | leftBrace | rightBrace | letWord | constWord | varWord | assign | elseWord | ifWord | forWord | whileWord | returnWord
  | plusAssign | minusAssign | timesAssign | question | colon | or | and | strictEq | eq | strictNe | ne
  | le | ge | lt | gt | plus | minus | times | slash | percent | bang | increment | decrement | dot
  | trueWord | falseWord | name | number | string | endOfText
  deriving DecidableEq, Repr

namespace Terminal

/-- The name of a terminal in diagnostics. -/
def label : Terminal → String
  | .semicolon => "SEMICOLON" | .arrow => "__ANON_0" | .functionWord => "FUNCTION" | .comma => "COMMA"
  | .leftParen => "LPAR" | .rightParen => "RPAR" | .leftBracket => "LSQB" | .rightBracket => "RSQB"
  | .leftBrace => "LBRACE" | .rightBrace => "RBRACE" | .letWord => "LET" | .constWord => "CONST"
  | .varWord => "VAR" | .assign => "EQUAL" | .elseWord => "ELSE" | .ifWord => "IF" | .forWord => "FOR"
  | .whileWord => "WHILE" | .returnWord => "RETURN" | .plusAssign => "__ANON_1" | .minusAssign => "__ANON_2"
  | .timesAssign => "__ANON_3" | .question => "QMARK" | .colon => "COLON" | .or => "__ANON_4"
  | .and => "__ANON_5" | .strictEq => "__ANON_6" | .eq => "__ANON_7" | .strictNe => "__ANON_8"
  | .ne => "__ANON_9" | .le => "__ANON_10" | .ge => "__ANON_11" | .lt => "LESSTHAN"
  | .gt => "MORETHAN" | .plus => "PLUS" | .minus => "MINUS" | .times => "STAR" | .slash => "SLASH"
  | .percent => "PERCENT" | .bang => "BANG" | .increment => "__ANON_12" | .decrement => "__ANON_13"
  | .dot => "DOT" | .trueWord => "TRUE" | .falseWord => "FALSE" | .name => "NAME" | .number => "NUMBER"
  | .string => "STRING" | .endOfText => "$END"

/-- The keywords with their spelling. -/
def keywords : List (String × Terminal) :=
  [("function", .functionWord), ("let", .letWord), ("const", .constWord), ("var", .varWord), ("else", .elseWord),
    ("if", .ifWord), ("for", .forWord), ("while", .whileWord), ("return", .returnWord), ("true", .trueWord),
    ("false", .falseWord)]

/-- The operators and brackets with their spelling, longer ones first. -/
def symbols : List (String × Terminal) :=
  [("===", .strictEq), ("!==", .strictNe),
    ("=>", .arrow), ("+=", .plusAssign), ("-=", .minusAssign), ("*=", .timesAssign), ("||", .or),
    ("&&", .and), ("==", .eq), ("!=", .ne), ("<=", .le), (">=", .ge), ("++", .increment),
    ("--", .decrement),
    (";", .semicolon), (",", .comma), ("(", .leftParen), (")", .rightParen), ("[", .leftBracket),
    ("]", .rightBracket), ("\x7b", .leftBrace), ("\x7d", .rightBrace), ("=", .assign),
    ("?", .question), (":", .colon), ("<", .lt), (">", .gt), ("+", .plus), ("-", .minus),
    ("*", .times), ("/", .slash), ("%", .percent), ("!", .bang), (".", .dot)]

/-- The terminals that start an expression. -/
def startsOperand : Terminal → Bool
  | .bang | .leftParen | .plus | .increment | .minus | .decrement | .name | .number | .string
  | .leftBracket | .falseWord | .trueWord => true
  | _ => false

/-- The terminals that start a statement. -/
def startsStatement : Terminal → Bool
  | .constWord | .forWord | .ifWord | .letWord | .returnWord | .varWord | .whileWord | .leftBrace => true
  | t => t.startsOperand

end Terminal

/-- What came just before, as far as the choice of the next terminal depends on it. -/
inductive Context where
  /-- Nothing yet. -/
  | start
  /-- The word `function`. -/
  | functionWord
  /-- The name of a function. -/
  | functionName
  /-- A name at the very start. -/
  | loneName
  /-- The parenthesis that opens the parameters. -/
  | parametersOpen
  /-- The bracket that opens a pattern. -/
  | patternOpen
  /-- A name in a pattern. -/
  | patternName
  /-- A comma in a pattern. -/
  | patternComma
  /-- The bracket that closes a pattern. -/
  | patternClose
  /-- A parameter that is a plain name. -/
  | plainParameter
  /-- `let`, `const`, `var`, or a comma between parameters or declared names. -/
  | binder
  /-- The parenthesis that closes the parameters. -/
  | parametersClose
  /-- The arrow before the body. -/
  | arrow
  /-- An operator, or a bracket or comma that calls for an operand. -/
  | operator
  /-- The bracket that opens an array literal. -/
  | arrayOpen
  /-- The parenthesis that opens arguments, or the second semicolon of a loop head. -/
  | argumentsOpen
  /-- The parenthesis of a loop head. -/
  | loopOpen
  /-- The first semicolon of a loop head. -/
  | loopFirst
  /-- The head of a conditional or a loop, or `else`. -/
  | head
  /-- The brace that opens a block. -/
  | blockOpen
  /-- The brace that closes a block. -/
  | blockClose
  /-- The semicolon that ends a statement. -/
  | statementEnd
  /-- The word `return`. -/
  | returnWord
  /-- A name being declared. -/
  | declaredName
  /-- `if`, `for` or `while`. -/
  | headWord
  /-- The dot before a property. -/
  | dot
  /-- The end of an operand. -/
  | operand
  /-- `++` or `--` behind an operand. -/
  | update
  /-- The semicolon after the function. -/
  | final
  deriving DecidableEq, Repr

namespace Context

/-- Terminals that may follow a complete statement. -/
def afterStatement (t : Terminal) : Bool :=
  t.startsStatement || t == .rightBrace || t == .elseWord

/-- Whether a terminal is looked for after the given context. -/
def accepts : Context → Terminal → Bool
  | .start, t => t == .leftParen || t == .name || t == .functionWord
  | .functionWord, t => t == .leftParen || t == .name
  | .functionName, t => t == .leftParen
  | .loneName, t => t == .arrow
  | .parametersOpen, t => t == .rightParen || t == .leftBracket || t == .name
  | .patternOpen, t => t == .name || t == .rightBracket
  | .patternName, t => t == .comma || t == .rightBracket
  | .patternComma, t => t == .name
  | .patternClose, t =>
    afterStatement t || t == .semicolon || t == .comma || t == .assign || t == .rightParen
  | .plainParameter, t => t == .rightParen || t == .comma
  | .binder, t => t == .name || t == .leftBracket
  | .parametersClose, t => t == .arrow || t == .leftBrace
  | .arrow, t => t.startsOperand || t == .leftBrace
  | .operator, t => t.startsOperand
  | .arrayOpen, t => t.startsOperand || t == .rightBracket
  | .argumentsOpen, t => t.startsOperand || t == .rightParen
  | .loopOpen, t => t.startsOperand || t == .semicolon || t == .constWord || t == .letWord || t == .varWord
  | .loopFirst, t => t.startsOperand || t == .semicolon
  | .head, t => t.startsStatement
  | .blockOpen, t => t.startsStatement || t == .rightBrace
  | .blockClose, t => afterStatement t || t == .semicolon
  | .statementEnd, t => afterStatement t
  | .returnWord, t => afterStatement t || t == .semicolon
  | .declaredName, t => afterStatement t || t == .semicolon || t == .comma || t == .assign
  | .headWord, t => t == .leftParen
  | .dot, t => t == .name
  | .operand, t => t != .arrow && t != .functionWord
  | .update, t => t != .arrow && t != .functionWord && t != .dot
  | .final, _ => false

end Context

/-- A place in the text; lines and columns start at one. -/
structure Position where
  line : Nat
  column : Nat
  deriving DecidableEq, Repr

/-- A token: its kind, its characters and where it starts. -/
structure Token where
  terminal : Terminal
  lexeme : List Char
  position : Position
  deriving DecidableEq, Repr

end ArrowCircuit.Script
