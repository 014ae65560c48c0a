import ArrowCircuit.Circuit.Basic
import Mathlib.Logic.Function.Basic

/-!
# Scopes and the arithmetic fragment

Two properties of circuits that say nothing of how they are read or lowered: the names that a circuit
uses are in scope, and its statements are made of arithmetic on the field.
-/

namespace ArrowCircuit

/-! ## Scopes -/

/-- The names in scope at a point of a circuit, each with its mutability. -/
abbrev Scope := String → Option Bool

/-- The operands of an expression are in scope.  Calls, elements, arrays and choices are not looked
into: the name of a function is no variable. -/
def Expr.Closed (scope : Scope) : Expr → Prop
  | .identifier name => (scope name).isSome
  | .binary _ left right => left.Closed scope ∧ right.Closed scope
  | .unary _ operand => operand.Closed scope
  | _ => True

/-- A statement uses names in scope, declares only new ones, and assigns only mutable ones. -/
def Statement.Scoped (scope : Scope) : Statement → Prop
  | .assert condition _ => condition.Closed scope
  | .declare name _ initial => scope name = none ∧ initial.Closed scope
  | .assign target value _ => scope target = some true ∧ value.Closed scope
  | _ => True

/-- The names in scope behind a statement. -/
def Statement.extend (scope : Scope) : Statement → Scope
  | .declare name isMutable _ => Function.update scope name (some isMutable)
  | _ => scope

/-- Statements one after another are scoped, declarations being visible to what follows them. -/
def ScopedAll (scope : Scope) : List Statement → Prop
  | [] => True
  | statement :: rest => statement.Scoped scope ∧ ScopedAll (statement.extend scope) rest

/-! ## The arithmetic fragment -/

/-- Identifiers, integers and booleans, the four operations on the field, and negation. -/
def Expr.IsArithmetic : Expr → Prop
  | .identifier _ | .literal (.int _) | .literal (.bool _) => True
  | .binary op left right =>
    op ∈ [BinaryOp.add, .sub, .mul, .div] ∧ left.IsArithmetic ∧ right.IsArithmetic
  | .unary .neg operand => operand.IsArithmetic
  | _ => False

instance Expr.decidableIsArithmetic : (e : Expr) → Decidable e.IsArithmetic
  | .identifier _ | .literal (.int _) | .literal (.bool _) => .isTrue trivial
  | .binary op left right =>
    have := left.decidableIsArithmetic
    have := right.decidableIsArithmetic
    inferInstanceAs (Decidable (op ∈ [BinaryOp.add, .sub, .mul, .div] ∧ _ ∧ _))
  | .unary .neg operand => operand.decidableIsArithmetic
  | .literal (.text _) | .unary .not _ | .otherBinary .. | .otherUnary .. | .index .. | .call ..
  | .array _ | .conditional .. | .foreign _ => .isFalse id

/-- An equality or order between arithmetic expressions, or an arithmetic expression that is no
operation between two operands. -/
def Expr.IsCondition : Expr → Prop
  | .binary op left right =>
    op ∈ [BinaryOp.eq, .ge, .gt, .le, .lt] ∧ left.IsArithmetic ∧ right.IsArithmetic
  | e => e.IsArithmetic

instance : (e : Expr) → Decidable e.IsCondition
  | .binary op left right =>
    inferInstanceAs (Decidable (op ∈ [BinaryOp.eq, .ge, .gt, .le, .lt] ∧
      left.IsArithmetic ∧ right.IsArithmetic))
  | .identifier n => inferInstanceAs (Decidable (Expr.identifier n).IsArithmetic)
  | .literal v => inferInstanceAs (Decidable (Expr.literal v).IsArithmetic)
  | .unary op e => inferInstanceAs (Decidable (Expr.unary op e).IsArithmetic)
  | .otherBinary .. | .otherUnary .. | .index .. | .call .. | .array _ | .conditional ..
  | .foreign _ => .isFalse id

/-- An assertion of a condition, or a declaration or assignment of an arithmetic value. -/
def Statement.IsArithmetic : Statement → Prop
  | .assert condition _ => condition.IsCondition
  | .declare _ _ value | .assign _ value _ => value.IsArithmetic
  | _ => False

instance : (statement : Statement) → Decidable statement.IsArithmetic
  | .assert condition _ => inferInstanceAs (Decidable condition.IsCondition)
  | .declare _ _ value | .assign _ value _ => inferInstanceAs (Decidable value.IsArithmetic)
  | .branch .. | .loop .. | .foreign _ => .isFalse id

/-- A circuit whose statements are all arithmetic. -/
def Circuit.IsArithmetic (c : Circuit) : Prop :=
  ∀ statement ∈ c.statements, statement.IsArithmetic

instance (c : Circuit) : Decidable c.IsArithmetic :=
  inferInstanceAs (Decidable (∀ statement ∈ c.statements, statement.IsArithmetic))

end ArrowCircuit
