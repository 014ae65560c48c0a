import ArrowCircuit.Circuit.Basic

/-!
# Where circuits divide

A circuit is free of division when the operator stands nowhere in its statements, whatever the
constructs around it.
-/

namespace ArrowCircuit

/-- A division stands somewhere in an expression. -/
inductive Expr.HasDivision : Expr → Prop where
  | here (l r : Expr) : HasDivision (.binary .div l r)
  | left {op : BinaryOp} {l r : Expr} (h : HasDivision l) : HasDivision (.binary op l r)
  | right {op : BinaryOp} {l r : Expr} (h : HasDivision r) : HasDivision (.binary op l r)
  | operand {op : UnaryOp} {e : Expr} (h : HasDivision e) : HasDivision (.unary op e)
  | otherLeft {symbol : String} {l r : Expr} (h : HasDivision l) :
      HasDivision (.otherBinary symbol l r)
  | otherRight {symbol : String} {l r : Expr} (h : HasDivision r) :
      HasDivision (.otherBinary symbol l r)
  | otherOperand {symbol : String} {e : Expr} (h : HasDivision e) :
      HasDivision (.otherUnary symbol e)
  | object {object position : Expr} (h : HasDivision object) : HasDivision (.index object position)
  | position {object position : Expr} (h : HasDivision position) :
      HasDivision (.index object position)
  | callee {callee : Expr} {method : Option String} {arguments : List Expr}
      (h : HasDivision callee) : HasDivision (.call callee method arguments)
  | argument {callee e : Expr} {method : Option String} {arguments : List Expr}
      (hmem : e ∈ arguments) (h : HasDivision e) : HasDivision (.call callee method arguments)
  | element {e : Expr} {elements : List Expr} (hmem : e ∈ elements) (h : HasDivision e) :
      HasDivision (.array elements)
  | condition {condition consequent alternate : Expr} (h : HasDivision condition) :
      HasDivision (.conditional condition consequent alternate)
  | consequent {condition consequent alternate : Expr} (h : HasDivision consequent) :
      HasDivision (.conditional condition consequent alternate)
  | alternate {condition consequent alternate : Expr} (h : HasDivision alternate) :
      HasDivision (.conditional condition consequent alternate)

/-- A division stands somewhere in a statement. -/
inductive Statement.HasDivision : Statement → Prop where
  | assert {e : Expr} {m : Option Text} (h : e.HasDivision) : HasDivision (.assert e m)
  | declare {n : String} {isMutable : Bool} {e : Expr} (h : e.HasDivision) :
      HasDivision (.declare n isMutable e)
  | assign {n : String} {e : Expr} {isMutable : Bool} (h : e.HasDivision) :
      HasDivision (.assign n e isMutable)
  | condition {e : Expr} {body : List Statement} {alternate : Option (List Statement)}
      (h : e.HasDivision) : HasDivision (.branch e body alternate)
  | consequent {e : Expr} {s : Statement} {body : List Statement}
      {alternate : Option (List Statement)} (hmem : s ∈ body) (h : HasDivision s) :
      HasDivision (.branch e body alternate)
  | alternate {e : Expr} {s : Statement} {body other : List Statement} (hmem : s ∈ other)
      (h : HasDivision s) : HasDivision (.branch e body (some other))
  | first {n : String} {a b : Expr} {inclusive : Bool} {body : List Statement}
      (h : a.HasDivision) : HasDivision (.loop n a b inclusive body)
  | last {n : String} {a b : Expr} {inclusive : Bool} {body : List Statement}
      (h : b.HasDivision) : HasDivision (.loop n a b inclusive body)
  | body {n : String} {a b : Expr} {inclusive : Bool} {s : Statement} {body : List Statement}
      (hmem : s ∈ body) (h : HasDivision s) : HasDivision (.loop n a b inclusive body)

/-- No statement of a circuit divides. -/
def Circuit.DivisionFree (c : Circuit) : Prop := ∀ s ∈ c.statements, ¬ s.HasDivision

end ArrowCircuit
