import ArrowCircuit.Circuit.Noir
import ArrowCircuit.Proofs.Circuit.Scope
import ArrowCircuit.Proofs.Script.Expressions

/-!
# Circuits that have a Noir text

The decimal text of an integer has a limited number of digits, while a script can spell a greater
integer in hexadecimal.  Lowering does not mind, since it reduces the integer; printing does.  An
arithmetic circuit has a Noir text exactly if all of its integer literals are within the limit, and
otherwise a numeral is too large (`decides_program`).
-/

namespace ArrowCircuit

/-- An integer has no more digits than a decimal text may have. -/
def Numeral.WithinLimit (z : Int) : Prop := z.natAbs < Nat.pow 10 digitLimit

/-- An integer literal has a decimal text. -/
def Expr.PrintableNode : Expr → Prop
  | .literal (.int z) => Numeral.WithinLimit z
  | _ => True

/-- All integer literals of an expression have decimal texts. -/
def Expr.Printable (e : Expr) : Prop := e.Everywhere Expr.PrintableNode

/-- All integer literals of a circuit have decimal texts. -/
def Circuit.Printable (c : Circuit) : Prop := ∀ e ∈ Statement.exprsOf c.statements, e.Printable

namespace Expr

theorem printable_int {z : Int} : (literal (.int z)).Printable ↔ Numeral.WithinLimit z :=
  everywhere_literal.trans (by rw [PrintableNode])

theorem printable_binary {op : BinaryOp} {l r : Expr} :
    (binary op l r).Printable ↔ l.Printable ∧ r.Printable :=
  everywhere_binary.trans (and_iff_right trivial)

theorem printable_unary {op : UnaryOp} {e : Expr} : (unary op e).Printable ↔ e.Printable :=
  everywhere_unary.trans (and_iff_right trivial)

end Expr

namespace Noir

/-- An integer has more digits than a numeral may have. -/
def IsTooLarge (e : Fault) : Prop := e = .numeral .tooLarge

/-! ## Expressions -/

theorem decides_integer (z : Int) :
    Decides IsTooLarge (Numeral.WithinLimit z) (fun _ => True) (literal (.int z)) := by
  unfold literal Numeral.decimal? Numeral.WithinLimit
  -- the bound is a number of thousands of digits
  generalize Nat.pow 10 Numeral.digitLimit = bound
  dsimp only
  by_cases hz : z.natAbs < bound
  · rw [if_pos hz]
    exact .ok hz trivial
  · rw [if_neg hz]
    exact .error hz rfl

/-- The operands of an operation are printed one after the other. -/
theorem decides_binary (op : BinaryOp) {l r : Expr}
    (hl : Decides IsTooLarge l.Printable (fun _ => True) (expr l))
    (hr : Decides IsTooLarge r.Printable (fun _ => True) (expr r)) :
    Decides IsTooLarge (Expr.binary op l r).Printable (fun _ => True) (expr (.binary op l r)) := by
  rw [expr]
  refine (hl.bind fun left _ => ?_).congr Expr.printable_binary.symm
  exact hr.bind_ok fun right _ => .ok trivial trivial

theorem decides_expr : ∀ {e : Expr}, e.IsArithmetic →
    Decides IsTooLarge e.Printable (fun _ => True) (expr e)
  | .identifier name, _ => by
      rw [expr]
      exact .ok (Expr.everywhere_identifier.mpr trivial) trivial
  | .literal (.int z), _ => by
      rw [expr]
      exact (decides_integer z).congr Expr.printable_int.symm
  | .literal (.bool b), _ => by
      rw [expr]
      exact .ok (Expr.everywhere_literal.mpr trivial) trivial
  | .binary op l r, h => decides_binary op (decides_expr h.2.1) (decides_expr h.2.2)
  | .unary .neg e, h => by
      rw [expr]
      refine ((decides_expr (e := e) h).bind_ok fun text _ => ?_).congr Expr.printable_unary.symm
      exact .ok trivial trivial

/-- A comparison is no arithmetic expression, but its sides are. -/
theorem decides_condition {e : Expr} (h : e.IsCondition) :
    Decides IsTooLarge e.Printable (fun _ => True) (expr e) := by
  cases e with
  | binary op l r => exact decides_binary op (decides_expr h.2.1) (decides_expr h.2.2)
  | identifier | literal | unary | otherBinary | otherUnary | index | call | array | conditional
  | foreign => exact decides_expr h

/-! ## Statements -/

/-- **Steps.** An arithmetic statement has its lines exactly if its expression is printable. -/
theorem decides_statement (depth : Nat) {s : Statement} (h : s.IsArithmetic) :
    Decides IsTooLarge (∀ e ∈ s.exprs, e.Printable) (fun _ => True) (statement depth s) := by
  cases s with
  | assert condition message =>
      rw [statement]
      refine ((decides_condition h).bind_ok fun text _ => ?_).congr List.forall_mem_singleton.symm
      cases message <;> exact .ok trivial trivial
  | declare name isMutable initial =>
      rw [statement]
      refine Decides.congr ?_ List.forall_mem_singleton.symm
      exact (decides_expr h).bind_ok fun text _ => .ok trivial trivial
  | assign target value isMutable =>
      rw [statement]
      refine Decides.congr ?_ List.forall_mem_singleton.symm
      exact (decides_expr h).bind_ok fun text _ => .ok trivial trivial
  | branch | loop | foreign => exact h.elim

/-- **Runs.** Arithmetic statements have their lines exactly if all their expressions are printable. -/
theorem decides_statements (depth : Nat) {ss : List Statement} (h : ∀ s ∈ ss, s.IsArithmetic) :
    Decides IsTooLarge (∀ e ∈ Statement.exprsOf ss, e.Printable) (fun _ => True)
      (statements depth ss) := by
  induction ss with
  | nil =>
      rw [statements]
      exact .ok (List.forall_mem_nil _) trivial
  | cons s rest ih =>
      obtain ⟨hs, hrest⟩ := List.forall_mem_cons.mp h
      rw [statements, Statement.exprsOf]
      refine ((decides_statement depth hs).bind fun first _ => ?_).congr List.forall_mem_append.symm
      exact (ih hrest).bind_ok fun lines _ => .ok trivial trivial

/-- **Circuits.** An arithmetic circuit has a Noir text exactly if it is printable. -/
theorem decides_program {c : Circuit} (h : c.IsArithmetic) :
    Decides IsTooLarge c.Printable (fun _ => True) (program c) :=
  (decides_statements 1 h).bind_ok fun _ _ => .ok trivial trivial

end Noir

end ArrowCircuit
