import ArrowCircuit.Circuit.Basic
import ArrowCircuit.Constraint.System

/-!
# Lowering circuits to constraints

The witness of a circuit has the constant one at index zero, then the private parameters, then the
public ones, both in the order of declaration, and then one index for each intermediate result,
declared variable, difference and bit. Every statement adds constraints and, for the indices it
allocates, computations that fill them in. Each assignment binds its variable to a new index.

Only arithmetic can be lowered, and assertions of equality and order between arithmetic expressions;
an order is asserted through a difference that has to fit into a number of bits.
-/

namespace ArrowCircuit.Lowering

/-- Why a circuit is not lowered. -/
inductive Fault where
  | unsupported (feature : String)
  | unknownName (name : String)
  | undeclared (name : String)
  | immutable (name : String)
  | alreadyDeclared (name : String)
  deriving DecidableEq, Repr

/-- The wording of a fault. -/
def Fault.message : Fault → String
  | .unsupported feature => feature ++ " is unsupported in R1CS backend"
  | .unknownName name => "Unknown identifier '" ++ name ++ "'"
  | .undeclared name => "Assignment to undeclared variable '" ++ name ++ "'"
  | .immutable name =>
    "Cannot assign to immutable variable '" ++ name ++ "' (declare it with the mut_ prefix)"
  | .alreadyDeclared name => "Variable '" ++ name ++ "' is already declared"

/-- The least and the greatest number of bits of a comparison. -/
def minBits : Nat := 1
/-- The greatest number of bits of a comparison. -/
def maxBits : Nat := 252
/-- The number of bits of a comparison where none is given. -/
def defaultBits : Nat := 64

/-- What lowering depends on: the field and the number of bits of a comparison. -/
structure Settings where
  field : PrimeField := .scalar
  bits : Nat := defaultBits
  deriving DecidableEq, Repr

/-- Why a number of bits is not accepted. -/
inductive BitsFault where
  | value (fault : Value.IntFault)
  | numeral (fault : Numeral.Fault)
  | range (shown : Text)
  deriving DecidableEq, Repr

/-- The wording of a fault. -/
def BitsFault.message : BitsFault → String
  | .value f => f.message
  | .numeral f => f.message
  | .range shown => "comparison_bits must be in [1, 252], got " ++ Text.toStr shown

/-- Reads a number of bits. -/
def bitsOf (v : Value) : Except BitsFault Nat := do
  let z ← v.toInt.mapError .value
  if minBits ≤ z ∧ z ≤ maxBits then return z.toNat
  else .error (.range (← v.display.mapError .numeral))

/-- Where a name is bound. -/
structure Binding where
  index : Nat
  isMutable : Bool
  deriving DecidableEq, Repr

/-- What has been built so far. -/
structure State where
  next : Nat := 1
  scope : List (String × Binding) := []
  constraints : List Constraint := []
  computations : List Computation := []
  deriving DecidableEq, Repr

/-- The outcome of lowering a part of a circuit. -/
abbrev Result := Except Fault

namespace State

/-- Allocates the next index. -/
def alloc (s : State) : Nat × State := (s.next, { s with next := s.next + 1 })

/-- Binds a name, in place of an earlier binding. -/
def bindName (s : State) (name : String) (b : Binding) : State :=
  { s with scope := (name, b) :: s.scope }

/-- The binding of a name. -/
def lookup? (s : State) (name : String) : Option Binding := s.scope.lookup name

/-- Adds a constraint in canonical form. -/
def emit (f : PrimeField) (a b c : LinearForm) (s : State) : State :=
  { s with constraints := s.constraints ++ [⟨a.merge f, b.merge f, c.merge f⟩] }

/-- Adds a computation. -/
def compute (c : Computation) (s : State) : State :=
  { s with computations := s.computations ++ [c] }

end State

/-! ## Expressions -/

/-- The operations that can be lowered. -/
inductive Arithmetic where
  | add | sub | mul | div
  deriving DecidableEq, Repr

/-- The operation of an operator, if it is an arithmetic one. -/
def arithmetic? : BinaryOp → Option Arithmetic
  | .add => some .add
  | .sub => some .sub
  | .mul => some .mul
  | .div => some .div
  | _ => none

/-- The sum or difference of two forms, not merged. -/
def combine (f : PrimeField) (isSum : Bool) (left right : LinearForm) : LinearForm :=
  left ++ if isSum then right else right.negate f

/-- Constrains `target` to the result of an operation on two forms, and computes it. -/
def operate (f : PrimeField) (op : Arithmetic) (left right : LinearForm) (target : Nat) (s : State) :
    State :=
  match op with
  | .mul =>
    (s.emit f (left.merge f) (right.merge f) (.single target)).compute
      (.product target (left.merge f) (right.merge f))
  | .div =>
    (s.emit f (.single target) (right.merge f) (left.merge f)).compute
      (.quotient target (left.merge f) (right.merge f))
  | .add =>
    let terms := (combine f true left right).merge f
    (s.emit f terms .one (.single target)).compute (.linear target terms)
  | .sub =>
    let terms := (combine f false left right).merge f
    (s.emit f terms .one (.single target)).compute (.linear target terms)

/-- The form of an expression's value. Each operation gets an index of its own, allocated before
those of its operands. -/
def form (f : PrimeField) : Expr → State → Result (LinearForm × State)
  | .identifier name, s =>
    match s.lookup? name with
    | some b => .ok (.single b.index, s)
    | none => .error (.unknownName name)
  | .literal (.int z), s => .ok ([⟨f.reduce z, oneIndex⟩], s)
  | .literal (.bool b), s => .ok ([⟨f.reduce (if b then 1 else 0), oneIndex⟩], s)
  | .literal (.text _), _ => .error (.unsupported "string literal")
  | .binary op left right, s =>
    match arithmetic? op with
    | some op => do
      let (target, s) := s.alloc
      let (left, s) ← form f left s
      let (right, s) ← form f right s
      return (.single target, operate f op left right target s)
    | none => .error (.unsupported ("operator '" ++ op.symbol ++ "' inside an expression"))
  | .otherBinary symbol _ _, _ =>
    .error (.unsupported ("operator '" ++ symbol ++ "' inside an expression"))
  | .unary .neg operand, s => do
    let (target, s) := s.alloc
    let (terms, s) ← form f operand s
    let negated := terms.negate f
    return (.single target,
      (s.emit f negated .one (.single target)).compute (.linear target (negated.merge f)))
  | .unary .not _, _ => .error (.unsupported "unary operator '!'")
  | .otherUnary symbol _, _ => .error (.unsupported ("unary operator '" ++ symbol ++ "'"))
  | e, _ => .error (.unsupported (e.kind ++ " expression"))

/-- Stores the value of a form at a new index. -/
def store (f : PrimeField) (terms : LinearForm) (s : State) : Nat × State :=
  let (target, s) := s.alloc
  (target, (s.emit f terms .one (.single target)).compute (.linear target terms))

/-- The index that holds the value of an expression; a new one is allocated if there is none. -/
def materialize (f : PrimeField) (e : Expr) (s : State) : Result (Nat × State) := do
  let (terms, s) ← form f e s
  match terms.merge f with
  | [⟨1, i⟩] =>
    if i ≠ oneIndex then return (i, s) else return store f (LinearForm.single i) s
  | terms => return store f terms s

/-! ## Assertions -/

/-- The operands of an expression that is a product. -/
def product? : Expr → Option (Expr × Expr)
  | .binary .mul l r => some (l, r)
  | _ => none

/-- The operands of an expression that is a sum (`true`) or a difference. -/
def sum? : Expr → Option (Bool × Expr × Expr)
  | .binary .add l r => some (true, l, r)
  | .binary .sub l r => some (false, l, r)
  | _ => none

/-- Asserts that a product equals a value. -/
def assertProduct (f : PrimeField) (l r value : Expr) (s : State) : Result State := do
  let (a, s) ← form f l s
  let (b, s) ← form f r s
  let (c, s) ← form f value s
  return s.emit f a b c

/-- Asserts that a sum or difference equals a value. -/
def assertSum (f : PrimeField) (isSum : Bool) (l r value : Expr) (s : State) : Result State := do
  let (left, s) ← form f l s
  let (right, s) ← form f r s
  let (c, s) ← form f value s
  return s.emit f (combine f isSum left right) .one c

/-- Asserts that two values are equal. A product or a sum on either side needs no index. -/
def assertEqual (f : PrimeField) (left right : Expr) (s : State) : Result State :=
  match product? left, product? right, sum? left, sum? right with
  | some (l, r), _, _, _ => assertProduct f l r right s
  | none, some (l, r), _, _ => assertProduct f l r left s
  | none, none, some (isSum, l, r), _ => assertSum f isSum l r right s
  | none, none, none, some (isSum, l, r) => assertSum f isSum l r left s
  | none, none, none, none => do
    let (a, s) ← form f left s
    let (b, s) ← form f right s
    return s.emit f (a ++ b.negate f) .one []

/-- The constraint that an index holds zero or one. -/
def booleanConstraint (f : PrimeField) (i : Nat) : Constraint :=
  let terms := (LinearForm.single i).merge f
  ⟨terms, terms, terms⟩

/-- The value of a list of bits, the lowest first, as a form. -/
def weighted (f : PrimeField) (bits : List Nat) : LinearForm :=
  bits.zipIdx.map fun (i, k) => ⟨powMod 2 k f.modulus, i⟩

/-- Asserts that `a - b + offset` fits into the bits of a comparison. -/
def assertOrder (settings : Settings) (a b : Expr) (offset : Int) (s : State) : Result State := do
  let f := settings.field
  let (left, s) ← materialize f a s
  let (right, s) ← materialize f b s
  let (diff, s) := s.alloc
  let s := s.compute (.subtract diff left right offset)
  let terms : LinearForm :=
    [⟨1, left⟩, ⟨-1, right⟩] ++ if offset = 0 then [] else [⟨offset, oneIndex⟩]
  let s := s.emit f terms .one (.single diff)
  let bits := List.range' s.next settings.bits
  let s := { s with
    next := s.next + settings.bits
    constraints := s.constraints ++ bits.map (booleanConstraint f) }
  let s := s.emit f (weighted f bits) .one (.single diff)
  return s.compute (.bits diff bits settings.bits)

/-- Lowers an assertion. A condition that is no operation has to be one. -/
def lowerAssert (settings : Settings) (condition : Expr) (s : State) : Result State :=
  match condition with
  | .binary op left right =>
    match op with
    | .eq => assertEqual settings.field left right s
    | .ge => assertOrder settings left right 0 s
    | .gt => assertOrder settings left right (-1) s
    | .le => assertOrder settings right left 0 s
    | .lt => assertOrder settings right left (-1) s
    | .ne | .and | .or => .error (.unsupported ("operator '" ++ op.symbol ++ "'"))
    | _ => .error (.unsupported ("assert on a '" ++ op.symbol ++ "' expression"))
  | .otherBinary symbol _ _ => .error (.unsupported ("assert on a '" ++ symbol ++ "' expression"))
  | condition => do
    let (terms, s) ← form settings.field condition s
    return s.emit settings.field terms .one .one

/-! ## Statements -/

/-- Allocates an index and constrains it to the value of an expression. -/
def assignNew (f : PrimeField) (value : Expr) (s : State) : Result (Nat × State) := do
  let (target, s) := s.alloc
  match value with
  | .binary op left right =>
    match arithmetic? op with
    | some op =>
      let (left, s) ← form f left s
      let (right, s) ← form f right s
      return (target, operate f op left right target s)
    | none =>
      let (terms, s) ← form f value s
      return (target, (s.emit f terms .one (.single target)).compute (.linear target (terms.merge f)))
  | value =>
    let (terms, s) ← form f value s
    return (target, (s.emit f terms .one (.single target)).compute (.linear target (terms.merge f)))

/-- Lowers one statement. -/
def lowerStatement (settings : Settings) (statement : Statement) (s : State) : Result State :=
  match statement with
  | .assert condition _ => lowerAssert settings condition s
  | .declare name isMutable initial =>
    match s.lookup? name with
    | some _ => .error (.alreadyDeclared name)
    | none => do
      let (index, s) ← assignNew settings.field initial s
      return s.bindName name ⟨index, isMutable⟩
  | .assign target value _ =>
    match s.lookup? target with
    | none => .error (.undeclared target)
    | some b =>
      if b.isMutable then do
        let (index, s) ← assignNew settings.field value s
        return s.bindName target ⟨index, true⟩
      else .error (.immutable target)
  | .branch .. => .error (.unsupported "if statement")
  | .loop .. => .error (.unsupported "for loop")
  | .foreign node => .error (.unsupported ("statement kind '" ++ node.kind ++ "'"))

/-- Lowers statements one after another. -/
def lowerStatements (settings : Settings) : List Statement → State → Result State
  | [], s => .ok s
  | statement :: rest, s => do
    let s ← lowerStatement settings statement s
    lowerStatements settings rest s

/-- Gives each parameter an index. -/
def bindParams : List Param → State → List Nat × State
  | [], s => ([], s)
  | p :: rest, s =>
    let (index, s) := s.alloc
    let (indices, s) := bindParams rest (s.bindName p.name ⟨index, false⟩)
    (index :: indices, s)

end ArrowCircuit.Lowering

namespace ArrowCircuit

open Lowering in
/-- The constraint system of a circuit. -/
def Circuit.lower (settings : Settings) (c : Circuit) : Except Fault ConstraintSystem := do
  let (privateInputs, s) := bindParams c.privateParams {}
  let (publicInputs, s) := bindParams c.publicParams s
  let s ← lowerStatements settings c.statements s
  return ⟨s.next, publicInputs, privateInputs, s.constraints, s.computations⟩

end ArrowCircuit
