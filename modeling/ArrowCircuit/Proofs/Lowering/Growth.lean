import ArrowCircuit.Proofs.Lowering.Steps

/-!
# Lowering only adds

From one state to the next the indices grow, and constraints and computations are added behind those
that were there.  The names in scope change only where a statement binds one, and a computation fills
only indices that have been allocated.
-/

namespace ArrowCircuit

/-- The indices that a computation fills. -/
def Computation.targets : Computation → List Nat
  | .subtract target .. | .linear target _ | .product target .. | .quotient target .. => [target]
  | .bits _ targets _ => targets
  | .unknown _ => []

namespace Lowering

variable {f : PrimeField} {settings : Settings}

/-- One state comes after another: nothing of the earlier one is lost. -/
structure Grows (s s' : State) : Prop where
  next_le : s.next ≤ s'.next
  constraints : s.constraints <+: s'.constraints
  computations : s.computations <+: s'.computations

namespace Grows

theorem refl (s : State) : Grows s s :=
  ⟨Nat.le_refl _, List.prefix_rfl, List.prefix_rfl⟩

theorem trans {s₁ s₂ s₃ : State} (h : Grows s₁ s₂) (h' : Grows s₂ s₃) : Grows s₁ s₃ :=
  ⟨h.1.trans h'.1, h.2.trans h'.2, h.3.trans h'.3⟩

theorem alloc (s : State) : Grows s s.alloc.2 :=
  ⟨Nat.le_succ _, List.prefix_rfl, List.prefix_rfl⟩

theorem define (s : State) (k : Constraint) (c : Computation) : Grows s (s.define k c) :=
  ⟨Nat.le_refl _, List.prefix_append _ _, List.prefix_append _ _⟩

theorem emit (s : State) (a b c : LinearForm) : Grows s (s.emit f a b c) :=
  ⟨Nat.le_refl _, List.prefix_append _ _, List.prefix_rfl⟩

theorem order (s : State) (left right : Nat) (offset : Int) :
    Grows s (s.order settings left right offset) :=
  ⟨by simp only [State.order]; omega, List.prefix_append _ _, List.prefix_append _ _⟩

theorem bindName (s : State) (n : String) (b : Binding) : Grows s (s.bindName n b) :=
  ⟨Nat.le_refl _, List.prefix_rfl, List.prefix_rfl⟩

end Grows

/-! ## Expressions -/

theorem Lowers.grows {e : Expr} {s s' : State} {t : LinearForm} (h : Lowers f e s t s') :
    Grows s s' := by
  induction h with
  | name _ => exact .refl _
  | int _ _ => exact .refl _
  | bool _ _ => exact .refl _
  | operation _ _ _ ihl ihr => exact (Grows.alloc _).trans (ihl.trans (ihr.trans (.define _ _ _)))
  | negation _ ih => exact (Grows.alloc _).trans (ih.trans (.define _ _ _))

theorem Lowers.scope_eq {e : Expr} {s s' : State} {t : LinearForm} (h : Lowers f e s t s') :
    s'.scope = s.scope := by
  induction h with
  | name _ => rfl
  | int _ _ => rfl
  | bool _ _ => rfl
  | operation _ _ _ ihl ihr => exact ihr.trans ihl
  | negation _ ih => exact ih

theorem LowersAll.grows {es : List Expr} {s s' : State} {ts : List LinearForm}
    (h : LowersAll f es s ts s') : Grows s s' := by
  induction h with
  | nil _ => exact .refl _
  | cons h _ ih => exact h.grows.trans ih

theorem LowersAll.scope_eq {es : List Expr} {s s' : State} {ts : List LinearForm}
    (h : LowersAll f es s ts s') : s'.scope = s.scope := by
  induction h with
  | nil _ => rfl
  | cons h _ ih => exact ih.trans h.scope_eq

/-! ## Statements -/

theorem Equates.grows {l r : Expr} {s s' : State} (h : Equates f l r s s') : Grows s s' := by
  cases h with
  | productLeft h | productRight h | sumLeft h | sumRight h | plain h =>
      exact h.grows.trans (.emit _ _ _ _)

theorem Equates.scope_eq {l r : Expr} {s s' : State} (h : Equates f l r s s') :
    s'.scope = s.scope := by
  cases h with
  | productLeft h | productRight h | sumLeft h | sumRight h | plain h => exact h.scope_eq

theorem Materializes.grows {e : Expr} {s s' : State} {i : Nat} (h : Materializes f e s i s') :
    Grows s s' := by
  cases h with
  | held h _ => exact h.grows
  | stored h => exact h.grows.trans ((Grows.alloc _).trans (.define _ _ _))

theorem Materializes.scope_eq {e : Expr} {s s' : State} {i : Nat}
    (h : Materializes f e s i s') : s'.scope = s.scope := by
  cases h with
  | held h _ => exact h.scope_eq
  | stored h => exact h.scope_eq

theorem Assigns.grows {e : Expr} {s s' : State} (h : Assigns f e s s') : Grows s s' := by
  cases h with
  | operation h => exact h.grows
  | value h => exact (Grows.alloc _).trans (h.grows.trans (.define _ _ _))

theorem Assigns.scope_eq {e : Expr} {s s' : State} (h : Assigns f e s s') :
    s'.scope = s.scope := by
  cases h with
  | operation h => exact h.scope_eq
  | value h => exact h.scope_eq

theorem LowersStatement.grows {statement : Statement} {s s' : State}
    (h : LowersStatement settings statement s s') : Grows s s' := by
  cases h with
  | equality h => exact h.grows
  | order _ ha hb => exact ha.grows.trans (hb.grows.trans (.order _ _ _ _))
  | truth _ h => exact h.grows.trans (.emit _ _ _ _)
  | declare _ h => exact h.grows.trans (.bindName _ _ _)
  | assign _ _ h => exact h.grows.trans (.bindName _ _ _)

theorem grows_of_lowerStatements {statements : List Statement} {s s' : State}
    (h : lowerStatements settings statements s = .ok s') : Grows s s' := by
  induction statements generalizing s with
  | nil =>
      cases h
      exact .refl _
  | cons statement rest ih =>
      obtain ⟨s₁, hstep, hrest⟩ := lowerStatements_cons h
      exact hstep.grows.trans (ih hrest)

/-! ## The schedule -/

/-- Every computation fills indices that have been allocated. -/
def State.WritesBelow (s : State) : Prop := ∀ c ∈ s.computations, ∀ t ∈ c.targets, t < s.next

namespace State.WritesBelow

theorem of_eq {s s' : State} (h : s.WritesBelow) (hnext : s.next ≤ s'.next)
    (hcomputations : s'.computations = s.computations) : s'.WritesBelow := by
  intro c hc t ht
  rw [hcomputations] at hc
  exact (h c hc t ht).trans_le hnext

theorem append {s s' : State} (h : s.WritesBelow) (hnext : s.next ≤ s'.next)
    {cs : List Computation} (hcomputations : s'.computations = s.computations ++ cs)
    (hcs : ∀ c ∈ cs, ∀ t ∈ c.targets, t < s'.next) : s'.WritesBelow := by
  intro c hc t ht
  rw [hcomputations] at hc
  rcases List.mem_append.mp hc with hc | hc
  · exact (h c hc t ht).trans_le hnext
  · exact hcs c hc t ht

theorem alloc {s : State} (h : s.WritesBelow) : s.alloc.2.WritesBelow := h.of_eq (Nat.le_succ _) rfl

theorem define {s : State} (h : s.WritesBelow) (k : Constraint) {c : Computation}
    (hc : ∀ t ∈ c.targets, t < s.next) : (s.define k c).WritesBelow :=
  h.append (Nat.le_refl _) rfl (List.forall_mem_singleton.mpr hc)

theorem linear {s : State} (h : s.WritesBelow) (k : Constraint) {target : Nat} (terms : LinearForm)
    (htarget : target < s.next) : (s.define k (.linear target terms)).WritesBelow :=
  h.define k (List.forall_mem_singleton.mpr htarget)

theorem order {s : State} (h : s.WritesBelow) (left right : Nat) (offset : Int) :
    (s.order settings left right offset).WritesBelow := by
  refine h.append (Grows.order s left right offset).next_le rfl ?_
  simp only [List.forall_mem_cons, Computation.targets, List.not_mem_nil, false_imp_iff,
    implies_true, and_true, State.order, List.mem_range'_1]
  exact ⟨by omega, fun t ht => ht.2⟩

end State.WritesBelow

theorem targets_operationComputation (left right : LinearForm) (target : Nat) (a : Arithmetic) :
    (operationComputation f left right target a).targets = [target] := by
  cases a <;> rfl

theorem Lowers.writesBelow {e : Expr} {s s' : State} {t : LinearForm} (h : Lowers f e s t s')
    (hs : s.WritesBelow) : s'.WritesBelow := by
  induction h with
  | name _ => exact hs
  | int _ _ => exact hs
  | bool _ _ => exact hs
  | operation _ hl hr ihl ihr =>
      refine (ihr (ihl hs.alloc)).define _ ?_
      rw [targets_operationComputation, List.forall_mem_singleton]
      exact hl.grows.next_le.trans hr.grows.next_le
  | negation h ih => exact (ih hs.alloc).linear _ _ h.grows.next_le

theorem LowersAll.writesBelow {es : List Expr} {s s' : State} {ts : List LinearForm}
    (h : LowersAll f es s ts s') (hs : s.WritesBelow) : s'.WritesBelow := by
  induction h with
  | nil _ => exact hs
  | cons h _ ih => exact ih (h.writesBelow hs)

theorem Equates.writesBelow {l r : Expr} {s s' : State} (h : Equates f l r s s')
    (hs : s.WritesBelow) : s'.WritesBelow := by
  cases h with
  | productLeft h | productRight h | sumLeft h | sumRight h | plain h =>
      exact (h.writesBelow hs).of_eq (Nat.le_refl _) rfl

theorem Materializes.writesBelow {e : Expr} {s s' : State} {i : Nat} (h : Materializes f e s i s')
    (hs : s.WritesBelow) : s'.WritesBelow := by
  cases h with
  | held h _ => exact h.writesBelow hs
  | stored h => exact (h.writesBelow hs).alloc.linear _ _ (Nat.lt_succ_self _)

theorem Assigns.writesBelow {e : Expr} {s s' : State} (h : Assigns f e s s')
    (hs : s.WritesBelow) : s'.WritesBelow := by
  cases h with
  | operation h => exact h.writesBelow hs
  | value h => exact (h.writesBelow hs.alloc).linear _ _ h.grows.next_le

theorem LowersStatement.writesBelow {statement : Statement} {s s' : State}
    (h : LowersStatement settings statement s s') (hs : s.WritesBelow) : s'.WritesBelow := by
  cases h with
  | equality h => exact h.writesBelow hs
  | order _ ha hb => exact (hb.writesBelow (ha.writesBelow hs)).order _ _ _
  | truth _ h => exact (h.writesBelow hs).of_eq (Nat.le_refl _) rfl
  | declare _ h | assign _ _ h => exact (h.writesBelow hs).of_eq (Nat.le_refl _) rfl

theorem writesBelow_of_lowerStatements {statements : List Statement} {s s' : State}
    (h : lowerStatements settings statements s = .ok s') (hs : s.WritesBelow) : s'.WritesBelow := by
  induction statements generalizing s with
  | nil =>
      cases h
      exact hs
  | cons statement rest ih =>
      obtain ⟨s₁, hstep, hrest⟩ := lowerStatements_cons h
      exact ih hrest (hstep.writesBelow hs)

end Lowering

end ArrowCircuit
