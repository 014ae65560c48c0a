import ArrowCircuit.Constraint.Lowering
import ArrowCircuit.Proofs.Constraint.LinearForm
import ArrowCircuit.Proofs.Outcome

/-!
# What lowering does, step by step

Relations that say all a successful lowering can do: which form an expression gets and what is added
to the state on the way.  Every statement about lowering is proved by induction on these relations
or by cases on them; the functions themselves are opened here only.

The one way in which the lowering of an expression changes the state is `State.define`: a constraint
that pins an index, and the computation that fills it.
-/

namespace ArrowCircuit.Lowering

/-- Adds a constraint and the computation of the index that it pins. -/
def State.define (s : State) (k : Constraint) (c : Computation) : State :=
  { s with constraints := s.constraints ++ [k], computations := s.computations ++ [c] }

/-! ## Expressions -/

/-- The constraint that an index holds the value of a form. -/
def linearConstraint (f : PrimeField) (terms : LinearForm) (target : Nat) : Constraint :=
  ⟨terms.merge f, LinearForm.one.merge f, (LinearForm.single target).merge f⟩

/-- The constraint that an index holds the result of an operation. -/
def operationConstraint (f : PrimeField) (left right : LinearForm) (target : Nat) :
    Arithmetic → Constraint
  | .mul => ⟨(left.merge f).merge f, (right.merge f).merge f, (LinearForm.single target).merge f⟩
  | .div => ⟨(LinearForm.single target).merge f, (right.merge f).merge f, (left.merge f).merge f⟩
  | .add => linearConstraint f ((combine f true left right).merge f) target
  | .sub => linearConstraint f ((combine f false left right).merge f) target

/-- The computation of the result of an operation. -/
def operationComputation (f : PrimeField) (left right : LinearForm) (target : Nat) :
    Arithmetic → Computation
  | .mul => .product target (left.merge f) (right.merge f)
  | .div => .quotient target (left.merge f) (right.merge f)
  | .add => .linear target ((combine f true left right).merge f)
  | .sub => .linear target ((combine f false left right).merge f)

theorem operate_eq_define (f : PrimeField) (a : Arithmetic) (left right : LinearForm)
    (target : Nat) (s : State) :
    operate f a left right target s =
      s.define (operationConstraint f left right target a)
        (operationComputation f left right target a) := by
  cases a <;> rfl

/-- An expression is lowered: from one state to another, with the form of its value. -/
inductive Lowers (f : PrimeField) : Expr → State → LinearForm → State → Prop where
  | name {n : String} {b : Binding} {s : State} (h : s.lookup? n = some b) :
      Lowers f (.identifier n) s (.single b.index) s
  | int (z : Int) (s : State) : Lowers f (.literal (.int z)) s [⟨f.reduce z, oneIndex⟩] s
  | bool (b : Bool) (s : State) :
      Lowers f (.literal (.bool b)) s [⟨f.reduce (if b then 1 else 0), oneIndex⟩] s
  | operation {op : BinaryOp} {a : Arithmetic} {l r : Expr} {s s₁ s₂ : State}
      {left right : LinearForm} (ha : arithmetic? op = some a)
      (hl : Lowers f l s.alloc.2 left s₁) (hr : Lowers f r s₁ right s₂) :
      Lowers f (.binary op l r) s (.single s.next)
        (s₂.define (operationConstraint f left right s.next a)
          (operationComputation f left right s.next a))
  | negation {e : Expr} {s s₁ : State} {terms : LinearForm} (h : Lowers f e s.alloc.2 terms s₁) :
      Lowers f (.unary .neg e) s (.single s.next)
        (s₁.define (linearConstraint f (terms.negate f) s.next)
          (.linear s.next ((terms.negate f).merge f)))

/-- The function `form` lowers an expression. -/
theorem lowers_of_form {f : PrimeField} {e : Expr} {s s' : State} {terms : LinearForm}
    (h : form f e s = .ok (terms, s')) : Lowers f e s terms s' := by
  induction e, s using form.induct generalizing terms s' with
  | case1 n s b hb =>
      simp only [form, hb, Except.ok.injEq, Prod.mk.injEq] at h
      obtain ⟨rfl, rfl⟩ := h
      exact .name hb
  | case3 z s =>
      simp only [form, Except.ok.injEq, Prod.mk.injEq] at h
      obtain ⟨rfl, rfl⟩ := h
      exact .int z s
  | case4 b s =>
      simp only [form, Except.ok.injEq, Prod.mk.injEq] at h
      obtain ⟨rfl, rfl⟩ := h
      exact .bool b s
  | case6 op l r s a ha target s₀ halloc ihl ihr =>
      cases halloc
      simp only [form, ha] at h
      obtain ⟨⟨left, s₁⟩, hl, h⟩ := bind_eq_ok h
      obtain ⟨⟨right, s₂⟩, hr, h⟩ := bind_eq_ok h
      simp only [pure, Except.pure, Except.ok.injEq, Prod.mk.injEq] at h
      obtain ⟨rfl, rfl⟩ := h
      rw [operate_eq_define]
      exact .operation ha (ihl hl) (ihr s₁ hr)
  | case9 e s target s₀ halloc ih =>
      cases halloc
      simp only [form] at h
      obtain ⟨⟨terms, s₁⟩, he, h⟩ := bind_eq_ok h
      simp only [pure, Except.pure, Except.ok.injEq, Prod.mk.injEq] at h
      obtain ⟨rfl, rfl⟩ := h
      exact .negation (ih he)
  | case2 n s hb => simp [form, hb] at h
  | case5 t s => simp [form] at h
  | case7 op l r s ha => simp [form, ha] at h
  | case8 symbol l r s => simp [form] at h
  | case10 e s => simp [form] at h
  | case11 symbol e s => simp [form] at h
  | case12 e s _ _ _ _ _ _ _ _ _ => simp [form] at h

/-! ## Assertions -/

/-- Expressions are lowered one after another. -/
inductive LowersAll (f : PrimeField) : List Expr → State → List LinearForm → State → Prop where
  | nil (s : State) : LowersAll f [] s [] s
  | cons {e : Expr} {es : List Expr} {s s₁ s' : State} {t : LinearForm} {ts : List LinearForm}
      (h : Lowers f e s t s₁) (hs : LowersAll f es s₁ ts s') :
      LowersAll f (e :: es) s (t :: ts) s'

/-- The operator of a sum (`true`) or a difference. -/
def sumOp : Bool → BinaryOp
  | true => .add
  | false => .sub

/-- An equality is lowered: the operands of a product or a sum on one of its sides go straight into
the constraint, and so do two sides of any other shape. -/
inductive Equates (f : PrimeField) : Expr → Expr → State → State → Prop where
  | productLeft {l r e : Expr} {s s₁ : State} {a b c : LinearForm}
      (h : LowersAll f [l, r, e] s [a, b, c] s₁) :
      Equates f (.binary .mul l r) e s (s₁.emit f a b c)
  | productRight {l r e : Expr} {s s₁ : State} {a b c : LinearForm}
      (h : LowersAll f [l, r, e] s [a, b, c] s₁) :
      Equates f e (.binary .mul l r) s (s₁.emit f a b c)
  | sumLeft {isSum : Bool} {l r e : Expr} {s s₁ : State} {a b c : LinearForm}
      (h : LowersAll f [l, r, e] s [a, b, c] s₁) :
      Equates f (.binary (sumOp isSum) l r) e s (s₁.emit f (combine f isSum a b) .one c)
  | sumRight {isSum : Bool} {l r e : Expr} {s s₁ : State} {a b c : LinearForm}
      (h : LowersAll f [l, r, e] s [a, b, c] s₁) :
      Equates f e (.binary (sumOp isSum) l r) s (s₁.emit f (combine f isSum a b) .one c)
  | plain {l r : Expr} {s s₁ : State} {a b : LinearForm} (h : LowersAll f [l, r] s [a, b] s₁) :
      Equates f l r s (s₁.emit f (a ++ b.negate f) .one [])

theorem eq_of_product? {e l r : Expr} (h : product? e = some (l, r)) : e = .binary .mul l r := by
  unfold product? at h
  split at h
  · cases h
    rfl
  · cases h

theorem eq_of_sum? {e l r : Expr} {isSum : Bool} (h : sum? e = some (isSum, l, r)) :
    e = .binary (sumOp isSum) l r := by
  unfold sum? at h
  split at h
  · cases h
    rfl
  · cases h
    rfl
  · cases h

/-- Three forms computed one after another. -/
theorem lowersAll_of_forms {f : PrimeField} {l r e : Expr} {s s' : State}
    (emit : LinearForm → LinearForm → LinearForm → State → State)
    (h : (do
      let (a, s) ← form f l s
      let (b, s) ← form f r s
      let (c, s) ← form f e s
      return emit a b c s) = Except.ok s') :
    ∃ a b c s₁, LowersAll f [l, r, e] s [a, b, c] s₁ ∧ s' = emit a b c s₁ := by
  obtain ⟨⟨a, s₁⟩, ha, h⟩ := bind_eq_ok h
  obtain ⟨⟨b, s₂⟩, hb, h⟩ := bind_eq_ok h
  obtain ⟨⟨c, s₃⟩, hc, h⟩ := bind_eq_ok h
  simp only [pure, Except.pure, Except.ok.injEq] at h
  exact ⟨a, b, c, s₃, .cons (lowers_of_form ha)
    (.cons (lowers_of_form hb) (.cons (lowers_of_form hc) (.nil s₃))), h.symm⟩

theorem equates_of_assertEqual {f : PrimeField} {left right : Expr} {s s' : State}
    (h : assertEqual f left right s = .ok s') : Equates f left right s s' := by
  unfold assertEqual at h
  split at h
  · rename_i l r hl
    obtain ⟨a, b, c, s₁, hs, rfl⟩ := lowersAll_of_forms (fun a b c s => s.emit f a b c) h
    rw [eq_of_product? hl]
    exact .productLeft hs
  · rename_i l r _ hr
    obtain ⟨a, b, c, s₁, hs, rfl⟩ := lowersAll_of_forms (fun a b c s => s.emit f a b c) h
    rw [eq_of_product? hr]
    exact .productRight hs
  · rename_i isSum l r _ _ hl
    obtain ⟨a, b, c, s₁, hs, rfl⟩ :=
      lowersAll_of_forms (fun a b c s => s.emit f (combine f isSum a b) .one c) h
    rw [eq_of_sum? hl]
    exact .sumLeft hs
  · rename_i isSum l r _ _ _ hr
    obtain ⟨a, b, c, s₁, hs, rfl⟩ :=
      lowersAll_of_forms (fun a b c s => s.emit f (combine f isSum a b) .one c) h
    rw [eq_of_sum? hr]
    exact .sumRight hs
  · obtain ⟨⟨a, s₁⟩, ha, h⟩ := bind_eq_ok h
    obtain ⟨⟨b, s₂⟩, hb, h⟩ := bind_eq_ok h
    simp only [pure, Except.pure, Except.ok.injEq] at h
    rw [← h]
    exact .plain (.cons (lowers_of_form ha) (.cons (lowers_of_form hb) (.nil s₂)))

/-- The value of an expression is held at an index: at one that holds it already, or at a new one. -/
inductive Materializes (f : PrimeField) : Expr → State → Nat → State → Prop where
  | held {e : Expr} {s s₁ : State} {t : LinearForm} {i : Nat} (h : Lowers f e s t s₁)
      (ht : t.merge f = .single i) : Materializes f e s i s₁
  | stored {e : Expr} {s s₁ : State} {t : LinearForm} (h : Lowers f e s t s₁) :
      Materializes f e s s₁.next
        (s₁.alloc.2.define (linearConstraint f (t.merge f) s₁.next) (.linear s₁.next (t.merge f)))

theorem materializes_of_materialize {f : PrimeField} {e : Expr} {s s' : State} {i : Nat}
    (h : materialize f e s = .ok (i, s')) : Materializes f e s i s' := by
  obtain ⟨⟨t, s₁⟩, ht, h⟩ := bind_eq_ok h
  have hl := lowers_of_form ht
  dsimp only at h
  split at h
  · rename_i j hmerge
    split at h
    · cases h
      exact .held hl hmerge
    · cases h
      have hs := Materializes.stored hl
      rw [hmerge] at hs
      exact hs
  · cases h
    exact .stored hl

/-- The form of a difference with an offset. -/
def orderForm (left right : Nat) (offset : Int) : LinearForm :=
  [⟨1, left⟩, ⟨-1, right⟩] ++ if offset = 0 then [] else [⟨offset, oneIndex⟩]

/-- The equations of a comparison: the difference stands at an index, the indices behind it hold
bits, and the bits are those of the difference. -/
def orderConstraints (settings : Settings) (left right : Nat) (offset : Int) (target : Nat) :
    List Constraint :=
  let bits := List.range' (target + 1) settings.bits
  linearConstraint settings.field (orderForm left right offset) target ::
    (bits.map (booleanConstraint settings.field) ++
      [linearConstraint settings.field (weighted settings.field bits) target])

theorem mem_orderConstraints {settings : Settings} {left right : Nat} {offset : Int} {target : Nat}
    {k : Constraint} :
    k ∈ orderConstraints settings left right offset target ↔
      k = linearConstraint settings.field (orderForm left right offset) target ∨
      (∃ i ∈ List.range' (target + 1) settings.bits, k = booleanConstraint settings.field i) ∨
      k = linearConstraint settings.field
        (weighted settings.field (List.range' (target + 1) settings.bits)) target := by
  simp only [orderConstraints, List.mem_cons, List.mem_append, List.mem_map, List.not_mem_nil,
    or_false, eq_comm]

/-- What the comparison of two indices adds: the difference, its bits, and their equations. -/
def State.order (settings : Settings) (left right : Nat) (offset : Int) (s : State) : State :=
  { s with
    next := s.next + 1 + settings.bits
    constraints := s.constraints ++ orderConstraints settings left right offset s.next
    computations := s.computations ++ [.subtract s.next left right offset,
      .bits s.next (List.range' (s.next + 1) settings.bits) settings.bits] }

/-- The sides of a comparison, the greater one first, and whether it is strict. -/
def orderSides : BinaryOp → Expr → Expr → Option (Expr × Expr × Bool)
  | .ge, l, r => some (l, r, false)
  | .gt, l, r => some (l, r, true)
  | .le, l, r => some (r, l, false)
  | .lt, l, r => some (r, l, true)
  | _, _, _ => none

/-- The offset of a comparison. -/
def orderOffset (strict : Bool) : Int := if strict then -1 else 0

theorem order_of_assertOrder {settings : Settings} {a b : Expr} {offset : Int} {s s' : State}
    (h : assertOrder settings a b offset s = .ok s') :
    ∃ left s₁ right s₂, materialize settings.field a s = .ok (left, s₁) ∧
      materialize settings.field b s₁ = .ok (right, s₂) ∧
      s' = s₂.order settings left right offset := by
  obtain ⟨⟨left, s₁⟩, ha, h⟩ := bind_eq_ok h
  obtain ⟨⟨right, s₂⟩, hb, h⟩ := bind_eq_ok h
  cases h
  refine ⟨left, s₁, right, s₂, ha, hb, ?_⟩
  simp only [State.order, orderConstraints, State.compute, State.emit, linearConstraint, orderForm,
    List.append_assoc, List.cons_append, List.nil_append]

/-! ## Statements -/

/-- The next index is constrained to the value of an expression. -/
inductive Assigns (f : PrimeField) : Expr → State → State → Prop where
  | operation {op : BinaryOp} {l r : Expr} {s s' : State}
      (h : Lowers f (.binary op l r) s (.single s.next) s') : Assigns f (.binary op l r) s s'
  | value {e : Expr} {s s₁ : State} {t : LinearForm} (h : Lowers f e s.alloc.2 t s₁) :
      Assigns f e s (s₁.define (linearConstraint f t s.next) (.linear s.next (t.merge f)))

theorem assigns_of_assignNew {f : PrimeField} {e : Expr} {s s' : State} {i : Nat}
    (h : assignNew f e s = .ok (i, s')) : i = s.next ∧ Assigns f e s s' := by
  have hvalue : ∀ {i s'}, (do
      let (t, s₁) ← form f e s.alloc.2
      return (s.next, (s₁.emit f t .one (.single s.next)).compute (.linear s.next (t.merge f)))) =
        Except.ok (i, s') → i = s.next ∧ Assigns f e s s' := by
    intro i s' h
    obtain ⟨⟨t, s₁⟩, ht, h⟩ := bind_eq_ok h
    cases h
    exact ⟨rfl, .value (lowers_of_form ht)⟩
  unfold assignNew at h
  dsimp only [State.alloc] at h
  split at h
  · rename_i op l r
    split at h
    · rename_i a ha
      obtain ⟨⟨left, s₁⟩, hl, h⟩ := bind_eq_ok h
      obtain ⟨⟨right, s₂⟩, hr, h⟩ := bind_eq_ok h
      cases h
      rw [operate_eq_define]
      exact ⟨rfl, .operation (.operation ha (lowers_of_form hl) (lowers_of_form hr))⟩
    · exact hvalue h
  · exact hvalue h

/-- A statement is lowered. -/
inductive LowersStatement (settings : Settings) : Statement → State → State → Prop where
  | equality {l r : Expr} {m : Option Text} {s s' : State} (h : Equates settings.field l r s s') :
      LowersStatement settings (.assert (.binary .eq l r) m) s s'
  | order {op : BinaryOp} {l r a b : Expr} {strict : Bool} {m : Option Text} {s s₁ s₂ : State}
      {left right : Nat} (hop : orderSides op l r = some (a, b, strict))
      (ha : Materializes settings.field a s left s₁)
      (hb : Materializes settings.field b s₁ right s₂) :
      LowersStatement settings (.assert (.binary op l r) m) s
        (s₂.order settings left right (orderOffset strict))
  | truth {e : Expr} {m : Option Text} {s s₁ : State} {t : LinearForm}
      (he : ∀ op l r, e ≠ .binary op l r) (h : Lowers settings.field e s t s₁) :
      LowersStatement settings (.assert e m) s (s₁.emit settings.field t .one .one)
  | declare {n : String} {isMutable : Bool} {e : Expr} {s s' : State} (hn : s.lookup? n = none)
      (h : Assigns settings.field e s s') :
      LowersStatement settings (.declare n isMutable e) s (s'.bindName n ⟨s.next, isMutable⟩)
  | assign {n : String} {e : Expr} {isMutable : Bool} {b : Binding} {s s' : State}
      (hn : s.lookup? n = some b) (hb : b.isMutable = true) (h : Assigns settings.field e s s') :
      LowersStatement settings (.assign n e isMutable) s (s'.bindName n ⟨s.next, true⟩)

theorem lowersStatement_of_lowerAssert {settings : Settings} {e : Expr} {m : Option Text}
    {s s' : State} (h : lowerAssert settings e s = .ok s') :
    LowersStatement settings (.assert e m) s s' := by
  have horder : ∀ {op l r a b} {strict : Bool}, orderSides op l r = some (a, b, strict) →
      assertOrder settings a b (orderOffset strict) s = .ok s' →
      LowersStatement settings (.assert (.binary op l r) m) s s' := by
    intro op l r a b strict hop h
    obtain ⟨left, s₁, right, s₂, ha, hb, rfl⟩ := order_of_assertOrder h
    exact .order hop (materializes_of_materialize ha) (materializes_of_materialize hb)
  unfold lowerAssert at h
  split at h
  · rename_i op l r
    split at h
    · exact .equality (equates_of_assertEqual h)
    · exact horder rfl h
    · exact horder rfl h
    · exact horder rfl h
    · exact horder rfl h
    all_goals cases h
  · cases h
  · rename_i hne _
    obtain ⟨⟨t, s₁⟩, ht, h⟩ := bind_eq_ok h
    cases h
    exact .truth hne (lowers_of_form ht)

theorem lowersStatement_of_lowerStatement {settings : Settings} {statement : Statement}
    {s s' : State} (h : lowerStatement settings statement s = .ok s') :
    LowersStatement settings statement s s' := by
  unfold lowerStatement at h
  split at h
  · exact lowersStatement_of_lowerAssert h
  · split at h
    · cases h
    · rename_i hn
      obtain ⟨⟨i, s₁⟩, hi, h⟩ := bind_eq_ok h
      obtain ⟨rfl, ha⟩ := assigns_of_assignNew hi
      cases h
      exact .declare hn ha
  · split at h
    · cases h
    · rename_i b hn
      split at h
      · rename_i hb
        obtain ⟨⟨i, s₁⟩, hi, h⟩ := bind_eq_ok h
        obtain ⟨rfl, ha⟩ := assigns_of_assignNew hi
        cases h
        exact .assign hn hb ha
      · cases h
  all_goals cases h

theorem lowerStatements_cons {settings : Settings} {statement : Statement}
    {rest : List Statement} {s s' : State}
    (h : lowerStatements settings (statement :: rest) s = .ok s') :
    ∃ s₁, LowersStatement settings statement s s₁ ∧ lowerStatements settings rest s₁ = .ok s' := by
  obtain ⟨s₁, hs, h⟩ := bind_eq_ok h
  exact ⟨s₁, lowersStatement_of_lowerStatement hs, h⟩

/-! ## Circuits -/

/-- The state with the parameters of a circuit bound, from which its statements are lowered. -/
def paramState (c : Circuit) : State :=
  (bindParams c.publicParams (bindParams c.privateParams {}).2).2

/-- Binding parameters takes the next indices, in order. -/
theorem bindParams_eq (params : List Param) (s : State) :
    bindParams params s = (List.range' s.next params.length,
      { s with
        next := s.next + params.length
        scope := ((params.map (·.name)).zip
          ((List.range' s.next params.length).map (Binding.mk · false))).reverse ++ s.scope }) := by
  induction params generalizing s with
  | nil => simp [bindParams]
  | cons p rest ih =>
      simp only [bindParams, State.alloc, State.bindName, ih, List.length_cons, List.range'_succ,
        List.map_cons, List.zip_cons_cons, List.reverse_cons, List.append_assoc, List.cons_append,
        List.nil_append, Nat.add_assoc, Nat.add_comm 1]

theorem paramState_eq (c : Circuit) :
    paramState c =
      { next := 1 + c.paramNames.length
        scope := (c.paramNames.zip
          ((List.range' 1 c.paramNames.length).map (Binding.mk · false))).reverse
        constraints := []
        computations := [] } := by
  have hlen : c.paramNames.length = c.privateParams.length + c.publicParams.length := by
    simp [Circuit.paramNames]
  rw [paramState, bindParams_eq, bindParams_eq, hlen, ← List.range'_append_1, List.map_append,
    Circuit.paramNames, List.zip_append (by simp), List.reverse_append, List.append_nil,
    Nat.add_assoc]

/-- The system of a final state, for a circuit with these numbers of parameters. -/
def State.system (s : State) (c : Circuit) : ConstraintSystem where
  numWitnesses := s.next
  publicInputs := List.range' (1 + c.privateParams.length) c.publicParams.length
  privateInputs := List.range' 1 c.privateParams.length
  constraints := s.constraints
  computations := s.computations

/-- The statements are lowered from the state of the parameters, and the final state is the system. -/
theorem lower_eq (settings : Settings) (c : Circuit) :
    c.lower settings = lowerStatements settings c.statements (paramState c) >>= fun s =>
      .ok (s.system c) := by
  have hpriv := bindParams_eq c.privateParams {}
  have hpub := bindParams_eq c.publicParams (bindParams c.privateParams {}).2
  have hinputs : (bindParams c.privateParams {}).1 = List.range' 1 c.privateParams.length := by
    rw [hpriv]
  have hinputs' : (bindParams c.publicParams (bindParams c.privateParams {}).2).1 =
      List.range' (1 + c.privateParams.length) c.publicParams.length := by
    rw [hpub, hpriv]
  simp only [Circuit.lower, paramState, State.system, hinputs, hinputs']
  rfl

/-- **Lowering of circuits.** A circuit is lowered exactly if its statements are. -/
theorem lower_eq_ok_iff {settings : Settings} {c : Circuit} {sys : ConstraintSystem} :
    c.lower settings = .ok sys ↔
      ∃ s, lowerStatements settings c.statements (paramState c) = .ok s ∧ sys = s.system c := by
  rw [lower_eq]
  constructor
  · intro h
    obtain ⟨s, hs, h⟩ := bind_eq_ok h
    cases h
    exact ⟨s, hs, rfl⟩
  · rintro ⟨s, hs, rfl⟩
    rw [hs]
    rfl

end ArrowCircuit.Lowering
