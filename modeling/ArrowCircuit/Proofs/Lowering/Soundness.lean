import ArrowCircuit.Proofs.Circuit.Reference
import ArrowCircuit.Proofs.Lowering.Growth
import Mathlib.Algebra.GroupWithZero.Idempotent

/-!
# Soundness of lowering

Whatever assignment satisfies the constraints of a lowered circuit, honest or not, follows the
reference semantics of the circuit: every name has the value of the index it is bound to, and every
demand of an assertion is met, orders by their difference in the field.

Division is the one place where constraints are weaker than the semantics: `q * d = n` says nothing
about `q` when `d` and `n` are zero, so that denominators are assumed not to be zero.
-/

namespace ArrowCircuit.Lowering

variable {f : PrimeField} {w : Nat → ZMod f.modulus}

/-- The values that an assignment gives to the names in scope. -/
def State.env {F : Type} (s : State) (w : Nat → F) : Reference.Env F :=
  s.scope.map fun (n, b) => (n, w b.index)

theorem env_congr {F : Type} {s s' : State} (h : s'.scope = s.scope) (w : Nat → F) :
    s'.env w = s.env w := by
  rw [State.env, h, State.env]

theorem env_bindName {F : Type} (s : State) (n : String) (b : Binding) (w : Nat → F) :
    (s.bindName n b).env w = (n, w b.index) :: s.env w :=
  rfl

theorem lookup_env {F : Type} (s : State) (w : Nat → F) (n : String) :
    (s.env w).lookup n = (s.lookup? n).map fun b => w b.index := by
  rw [State.env, State.lookup?]
  induction s.scope with
  | nil => rfl
  | cons entry rest ih =>
      obtain ⟨m, b⟩ := entry
      rw [List.map_cons, List.lookup_cons, List.lookup_cons, ih]
      cases n == m <;> rfl

/-- An assignment satisfies what has been built: every equation holds and no denominator is zero. -/
structure Satisfies (w : Nat → ZMod f.modulus) (s : State) : Prop where
  holds : ∀ k ∈ s.constraints, k.Holds w
  nonzero : ∀ t num den, .quotient t num den ∈ s.computations → den.value w ≠ 0

namespace Satisfies

/-- What satisfies a state satisfies every earlier one. -/
theorem mono {s s' : State} (h : Satisfies w s') (hs : Grows s s') : Satisfies w s :=
  ⟨fun k hk => h.holds k (hs.constraints.subset hk),
    fun t num den hc => h.nonzero t num den (hs.computations.subset hc)⟩

theorem holds_define {s : State} {k : Constraint} {c : Computation}
    (h : Satisfies w (s.define k c)) : k.Holds w :=
  h.holds k (by simp [State.define])

theorem holds_emit {s : State} {a b c : LinearForm} (h : Satisfies w (s.emit f a b c)) :
    a.value w * b.value w = c.value w := by
  have hk := h.holds ⟨a.merge f, b.merge f, c.merge f⟩ (by simp [State.emit])
  simpa [Constraint.Holds] using hk

end Satisfies

/-! ## Equations -/

theorem holds_linearConstraint (hone : w oneIndex = 1) {t : LinearForm} {target : Nat} :
    (linearConstraint f t target).Holds w ↔ w target = t.value w := by
  simp [Constraint.Holds, linearConstraint, LinearForm.value_one w hone, eq_comm]

theorem value_combine (isSum : Bool) (l r : LinearForm) :
    (combine f isSum l r).value w =
      if isSum then l.value w + r.value w else l.value w - r.value w := by
  cases isSum <;> simp [combine, sub_eq_add_neg]

theorem Lowers.env_eq {e : Expr} {s s' : State} {t : LinearForm} (h : Lowers f e s t s') :
    s'.env w = s.env w :=
  env_congr h.scope_eq w

/-! ## Bits -/

/-- The number whose bits, the lowest first, stand at a list of indices. -/
def bitSum {p : Nat} (w : Nat → ZMod p) : List Nat → ZMod p
  | [] => 0
  | i :: rest => w i + 2 * bitSum w rest

theorem value_weighted_from (bits : List Nat) (k : Nat) :
    LinearForm.value w ((bits.zipIdx k).map fun (i, k) => ⟨powMod 2 k f.modulus, i⟩) =
      2 ^ k * bitSum w bits := by
  induction bits generalizing k with
  | nil => simp [bitSum]
  | cons i rest ih =>
      rw [List.zipIdx_cons, List.map_cons, LinearForm.value_cons, ih, bitSum]
      dsimp only
      rw [Int.cast_natCast, natCast_powMod]
      push_cast
      ring

theorem value_weighted (bits : List Nat) : (weighted f bits).value w = bitSum w bits := by
  rw [weighted, value_weighted_from, pow_zero, one_mul]

/-- Bits that are zero or one sum up to a number that they can write. -/
theorem bitSum_eq_natCast {bits : List Nat} (h : ∀ i ∈ bits, w i = 0 ∨ w i = 1) :
    ∃ m : Nat, m < 2 ^ bits.length ∧ bitSum w bits = m := by
  induction bits with
  | nil => exact ⟨0, by simp, by simp [bitSum]⟩
  | cons i rest ih =>
      obtain ⟨m, hm, hsum⟩ := ih fun j hj => h j (List.mem_cons_of_mem i hj)
      rw [List.length_cons, pow_succ, bitSum, hsum]
      rcases h i List.mem_cons_self with hi | hi
      · refine ⟨2 * m, by omega, ?_⟩
        rw [hi]
        push_cast
        ring
      · refine ⟨1 + 2 * m, by omega, ?_⟩
        rw [hi]
        push_cast
        ring

theorem value_orderForm (hone : w oneIndex = 1) (left right : Nat) (offset : Int) :
    (orderForm left right offset).value w = w left - w right + offset := by
  by_cases h : offset = 0
  · simp [orderForm, h, sub_eq_add_neg]
  · simp [orderForm, h, hone]
    ring

/-! ## Demands -/

theorem apply_sumOp {F : Type} [Field F] [DecidableEq F] (isSum : Bool) (x y : F) :
    Reference.apply (sumOp isSum) x y = .ok (if isSum then x + y else x - y) := by
  cases isSum <;> rfl

/-- The demand of a comparison is an order of its sides. -/
theorem demand_order {F : Type} [Field F] [DecidableEq F] {env : Reference.Env F} {op : BinaryOp}
    {l r a b : Expr} {strict : Bool} {x y : F} (hop : orderSides op l r = some (a, b, strict))
    (ha : Reference.eval env a = .ok x) (hb : Reference.eval env b = .ok y) :
    Reference.demand env (.binary op l r) = .ok (.order x y strict) := by
  cases op with
  | ge | gt | le | lt =>
      cases hop
      simp only [Reference.demand, ha, hb, bind, Except.bind]
  | _ => cases hop

/-- The demand of a condition that is no operation is its truth. -/
theorem demand_truth {F : Type} [Field F] [DecidableEq F] {env : Reference.Env F} {e : Expr}
    {s s' : State} {t : LinearForm} {x : F} (he : ∀ op l r, e ≠ .binary op l r)
    (h : Lowers f e s t s') (hx : Reference.eval env e = .ok x) :
    Reference.demand env e = .ok (.truth x) := by
  cases h with
  | operation _ _ _ => exact absurd rfl (he _ _ _)
  | _ => simp only [Reference.demand, hx, bind, Except.bind, pure, Except.pure]

/-- The offset of a comparison in the field. -/
theorem sub_add_orderOffset {F : Type} [Ring F] (x y : F) (strict : Bool) :
    x - y + (orderOffset strict : Int) = x - y - if strict then 1 else 0 := by
  cases strict <;> simp [orderOffset, sub_eq_add_neg]

/-! ## Values of expressions -/

variable [Fact f.modulus.Prime]

/-- The constraint of an operation says that its index holds the result, unless it divides by
zero. -/
theorem holds_operationConstraint (hone : w oneIndex = 1) {op : BinaryOp} {a : Arithmetic}
    {left right : LinearForm} {target : Nat} (ha : arithmetic? op = some a)
    (hden : a = .div → right.value w ≠ 0) :
    (operationConstraint f left right target a).Holds w ↔
      Reference.apply op (left.value w) (right.value w) = .ok (w target) := by
  cases op with
  | add | sub =>
      cases ha
      rw [operationConstraint, holds_linearConstraint hone, LinearForm.value_merge, value_combine,
        Reference.apply, Except.ok.injEq, eq_comm]
      rfl
  | mul =>
      cases ha
      simp only [operationConstraint, Constraint.Holds, LinearForm.value_merge,
        LinearForm.value_single, Reference.apply, Except.ok.injEq]
  | div =>
      cases ha
      have hr := hden rfl
      simp only [operationConstraint, Constraint.Holds, LinearForm.value_merge,
        LinearForm.value_single, Reference.apply, if_neg hr, Except.ok.injEq]
      rw [div_eq_iff hr, eq_comm]
  | _ => cases ha

/-- **Expressions.** Under a satisfying assignment the form of an expression has the value of the
expression. -/
theorem Lowers.eval_eq (hone : w oneIndex = 1) {e : Expr} {s s' : State} {t : LinearForm}
    (h : Lowers f e s t s') (hw : Satisfies w s') :
    Reference.eval (s.env w) e = .ok (t.value w) := by
  induction h with
  | name hb =>
      rw [Reference.eval, lookup_env, hb, LinearForm.value_single]
      rfl
  | int z s => simp [Reference.eval, hone]
  | bool b s => cases b <;> simp [Reference.eval, hone]
  | @operation op a l r s s₁ s₂ left right ha hl hr ihl ihr =>
      have hw₂ := hw.mono (.define _ _ _)
      have hl' := ihl (hw₂.mono hr.grows)
      have hr' := ihr hw₂
      rw [hl.env_eq] at hr'
      have hden : a = .div → right.value w ≠ 0 := by
        rintro rfl
        have hq := hw.nonzero s.next (left.merge f) (right.merge f)
          (by simp [State.define, operationComputation])
        rwa [LinearForm.value_merge] at hq
      have happly := (holds_operationConstraint hone ha hden).mp hw.holds_define
      have henv : s.alloc.2.env w = s.env w := rfl
      rw [henv] at hl' hr'
      simp only [Reference.eval, hl', hr', bind, Except.bind, LinearForm.value_single]
      exact happly
  | @negation e s s₁ terms he ih =>
      have he' := ih (hw.mono (.define _ _ _))
      have henv : s.alloc.2.env w = s.env w := rfl
      rw [henv] at he'
      have hk := (holds_linearConstraint hone).mp hw.holds_define
      simp only [Reference.eval, he', bind, Except.bind, pure, Except.pure, LinearForm.value_single]
      rw [hk, LinearForm.value_negate]

/-! ## Assertions -/

theorem LowersAll.eval_eq (hone : w oneIndex = 1) {es : List Expr} {s s' : State}
    {ts : List LinearForm} (h : LowersAll f es s ts s') (hw : Satisfies w s') :
    List.Forall₂ (fun e t => Reference.eval (s.env w) e = .ok (t.value w)) es ts := by
  induction h with
  | nil _ => exact .nil
  | cons h hs ih =>
      refine .cons (h.eval_eq hone (hw.mono hs.grows)) ?_
      rw [← h.env_eq]
      exact ih hw

/-- **Equality.** The two sides of an asserted equality have one value. -/
theorem Equates.eval_eq (hone : w oneIndex = 1) {l r : Expr} {s s' : State}
    (h : Equates f l r s s') (hw : Satisfies w s') :
    ∃ x, Reference.eval (s.env w) l = .ok x ∧ Reference.eval (s.env w) r = .ok x := by
  have hk := LinearForm.value_one w hone
  cases h with
  | productLeft h =>
      obtain ⟨hl, hr, he⟩ := by simpa using h.eval_eq hone (hw.mono (.emit _ _ _ _))
      refine ⟨_, Reference.eval_binary hl hr, ?_⟩
      rw [he, ← hw.holds_emit]
  | productRight h =>
      obtain ⟨hl, hr, he⟩ := by simpa using h.eval_eq hone (hw.mono (.emit _ _ _ _))
      refine ⟨_, ?_, Reference.eval_binary hl hr⟩
      rw [he, ← hw.holds_emit]
  | sumLeft h =>
      obtain ⟨hl, hr, he⟩ := by simpa using h.eval_eq hone (hw.mono (.emit _ _ _ _))
      refine ⟨_, (Reference.eval_binary hl hr).trans (apply_sumOp _ _ _), ?_⟩
      rw [he, ← hw.holds_emit, hk, mul_one, value_combine]
  | sumRight h =>
      obtain ⟨hl, hr, he⟩ := by simpa using h.eval_eq hone (hw.mono (.emit _ _ _ _))
      refine ⟨_, ?_, (Reference.eval_binary hl hr).trans (apply_sumOp _ _ _)⟩
      rw [he, ← hw.holds_emit, hk, mul_one, value_combine]
  | plain h =>
      obtain ⟨hl, hr⟩ := by simpa using h.eval_eq hone (hw.mono (.emit _ _ _ _))
      have heq := hw.holds_emit
      rw [hk, mul_one, LinearForm.value_append, LinearForm.value_negate, LinearForm.value_nil,
        add_neg_eq_zero] at heq
      exact ⟨_, hl, heq ▸ hr⟩

/-- The index that materializes an expression holds its value. -/
theorem Materializes.eval_eq (hone : w oneIndex = 1) {e : Expr} {s s' : State} {i : Nat}
    (h : Materializes f e s i s') (hw : Satisfies w s') :
    Reference.eval (s.env w) e = .ok (w i) := by
  cases h with
  | held h ht =>
      rw [h.eval_eq hone hw, ← LinearForm.value_merge, ht, LinearForm.value_single]
  | stored h =>
      have hi := (holds_linearConstraint hone).mp hw.holds_define
      rw [h.eval_eq hone (hw.mono ((Grows.alloc _).trans (.define _ _ _))), hi, LinearForm.value_merge]

theorem holds_booleanConstraint {i : Nat} :
    (booleanConstraint f i).Holds w ↔ w i = 0 ∨ w i = 1 := by
  simp only [booleanConstraint, Constraint.Holds, LinearForm.value_merge, LinearForm.value_single]
  exact IsIdempotentElem.iff_eq_zero_or_one

/-- The equations of a comparison: the difference stands at its index, the indices behind it hold
bits, and the bits write the difference. -/
theorem forall_mem_orderConstraints {settings : Settings} [Fact settings.field.modulus.Prime]
    {w : Nat → ZMod settings.field.modulus} (hone : w oneIndex = 1) {left right : Nat}
    {offset : Int} {target : Nat} :
    (∀ k ∈ orderConstraints settings left right offset target, k.Holds w) ↔
      w target = w left - w right + offset ∧
      (∀ i ∈ List.range' (target + 1) settings.bits, w i = 0 ∨ w i = 1) ∧
      w target = bitSum w (List.range' (target + 1) settings.bits) := by
  simp only [orderConstraints, List.forall_mem_cons, List.forall_mem_append, List.forall_mem_map,
    List.not_mem_nil, false_imp_iff, implies_true, and_true, holds_linearConstraint hone,
    holds_booleanConstraint, value_orderForm hone, value_weighted]

/-- **Order.** The difference of two compared indices has a representative of as many bits as the
comparison has; with the equations taken in the field, nothing is said of which side is greater. -/
theorem order_difference_lt {settings : Settings} [Fact settings.field.modulus.Prime]
    {w : Nat → ZMod settings.field.modulus} (hone : w oneIndex = 1) {left right : Nat}
    {offset : Int} {target : Nat}
    (hw : ∀ k ∈ orderConstraints settings left right offset target, k.Holds w) :
    (w left - w right + offset).val < 2 ^ settings.bits := by
  obtain ⟨hdiff, hbits, hsum⟩ := (forall_mem_orderConstraints hone).mp hw
  obtain ⟨m, hm, hval⟩ := bitSum_eq_natCast hbits
  rw [List.length_range'] at hm
  rw [← hdiff, hsum, hval, ZMod.val_natCast]
  exact lt_of_le_of_lt (Nat.mod_le _ _) hm

/-! ## Statements -/

/-- The index of an assignment holds the value of its expression. -/
theorem Assigns.eval_eq (hone : w oneIndex = 1) {e : Expr} {s s' : State}
    (h : Assigns f e s s') (hw : Satisfies w s') :
    Reference.eval (s.env w) e = .ok (w s.next) := by
  cases h with
  | operation h => rw [h.eval_eq hone hw, LinearForm.value_single]
  | value h =>
      rw [(holds_linearConstraint hone).mp hw.holds_define,
        ← h.eval_eq hone (hw.mono (.define _ _ _))]
      rfl

section

variable {settings : Settings} [Fact settings.field.modulus.Prime]
  {w : Nat → ZMod settings.field.modulus}

/-- **Statements.** A satisfying assignment follows a statement: the names behind it have the values
of their indices, and its demands are met. -/
theorem LowersStatement.step_eq (hone : w oneIndex = 1) {statement : Statement} {s s' : State}
    (h : LowersStatement settings statement s s') (hw : Satisfies w s') :
    ∃ ds, Reference.step (s.env w) statement = .ok (s'.env w, ds) ∧
      ∀ d ∈ ds, d.Met ∧ d.FitsField settings.bits := by
  cases h with
  | @equality l r m s s' h =>
      obtain ⟨x, hl, hr⟩ := h.eval_eq hone hw
      have hd : Reference.demand (s.env w) (.binary .eq l r) = .ok (.equal x x) := by
        simp only [Reference.demand, hl, hr, bind, Except.bind]
      refine ⟨[.equal x x], ?_, ?_⟩
      · rw [Reference.step_assert hd, env_congr h.scope_eq]
      · simp [Reference.Demand.Met, Reference.Demand.FitsField]
  | @order op l r a b strict m s s₁ s₂ left right hop ha hb =>
      have hw₂ : Satisfies w s₂ := hw.mono (.order _ _ _ _)
      have hx := ha.eval_eq hone (hw₂.mono hb.grows)
      have hy := hb.eval_eq hone hw₂
      rw [env_congr ha.scope_eq] at hy
      have hscope : (s₂.order settings left right (orderOffset strict)).scope = s.scope :=
        hb.scope_eq.trans ha.scope_eq
      refine ⟨[.order (w left) (w right) strict], ?_, ?_⟩
      · rw [Reference.step_assert (demand_order hop hx hy), env_congr hscope]
      · intro d hd
        rw [List.mem_singleton.mp hd]
        refine ⟨trivial, ?_⟩
        rw [Reference.Demand.FitsField, ← sub_add_orderOffset]
        exact order_difference_lt hone fun k hk => hw.holds k (List.mem_append_right _ hk)
  | @truth e m s s₁ t he h =>
      have hx := h.eval_eq hone (hw.mono (.emit _ _ _ _))
      have ht := hw.holds_emit
      rw [LinearForm.value_one w hone, mul_one] at ht
      have hscope : (s₁.emit settings.field t .one .one).scope = s.scope := h.scope_eq
      refine ⟨[.truth (t.value w)], ?_, ?_⟩
      · rw [Reference.step_assert (demand_truth he h hx), env_congr hscope]
      · simp [Reference.Demand.Met, Reference.Demand.FitsField, ht]
  | declare _ h =>
      have hx := h.eval_eq hone (hw.mono (.bindName _ _ _))
      refine ⟨[], ?_, by simp⟩
      rw [Reference.step_declare hx, env_bindName, env_congr h.scope_eq]
  | assign _ _ h =>
      have hx := h.eval_eq hone (hw.mono (.bindName _ _ _))
      refine ⟨[], ?_, by simp⟩
      rw [Reference.step_assign hx, env_bindName, env_congr h.scope_eq]

/-- **Programs.** A satisfying assignment follows a list of statements. -/
theorem run_eq_of_lowerStatements (hone : w oneIndex = 1) {statements : List Statement}
    {s s' : State} (h : lowerStatements settings statements s = .ok s') (hw : Satisfies w s') :
    ∃ ds, Reference.run statements (s.env w) = .ok (s'.env w, ds) ∧
      ∀ d ∈ ds, d.Met ∧ d.FitsField settings.bits := by
  induction statements generalizing s with
  | nil =>
      cases h
      exact ⟨[], rfl, by simp⟩
  | cons statement rest ih =>
      obtain ⟨s₁, hstep, hrest⟩ := lowerStatements_cons h
      obtain ⟨ds', hrun, hds'⟩ := ih hrest
      obtain ⟨ds, hds, hmet⟩ := hstep.step_eq hone (hw.mono (grows_of_lowerStatements hrest))
      refine ⟨ds ++ ds', Reference.run_cons hds hrun, ?_⟩
      intro d hd
      rcases List.mem_append.mp hd with hd | hd
      · exact hmet d hd
      · exact hds' d hd

end

/-! ## Circuits -/

/-- The parameters of a circuit are bound to the first indices. -/
theorem env_paramState {F : Type} (c : Circuit) (w : Nat → F) :
    (paramState c).env w = c.paramEnv ((List.range' 1 c.paramNames.length).map w) := by
  rw [State.env, paramState_eq, Circuit.paramEnv, List.map_reverse, List.zip_map_right,
    List.map_map, List.zip_map_right]
  rfl

/-- An assignment that leaves no residual and evaluates every denominator to a residue other than
zero satisfies the final state. -/
theorem satisfies_of_residual {w : Assignment} {s : State}
    (hsat : ∀ k ∈ s.constraints, k.residual f.modulus w = .ok 0)
    (hdiv : ∀ t num den, .quotient t num den ∈ s.computations →
      ∃ z, den.eval f.modulus w = .ok z ∧ z ≠ 0) :
    Satisfies (w.residue f.modulus) s := by
  refine ⟨fun k hk => (Constraint.residual_eq_zero_iff.mp (hsat k hk)).2, ?_⟩
  intro t num den hmem hzero
  obtain ⟨z, hz, hne⟩ := hdiv t num den hmem
  rw [LinearForm.eval_of_covers (LinearForm.covers_of_eval hz), hzero, ZMod.val_zero] at hz
  cases hz
  exact hne rfl

/-- **Soundness of lowering.** Let an assignment of integers with one at index zero satisfy every
constraint of a lowered circuit modulo the scalar modulus, and evaluate every denominator to a
residue other than zero.  Then the circuit runs on the residues at the indices of its parameters;
each name it declares or assigns has the residue at the index bound to it; and every demand of an
assertion is met, the difference of an order being a number of as many bits as comparisons have. -/
theorem lower_sound (c : Circuit) (bits : Nat) (sys : ConstraintSystem)
    (h : c.lower { field := .scalar, bits } = .ok sys) (w : Assignment)
    (hone : w.get? oneIndex = some 1)
    (hsat : ∀ k ∈ sys.constraints, k.residual scalarModulus w = .ok 0)
    (hdiv : ∀ t num den, .quotient t num den ∈ sys.computations →
      ∃ z, den.eval scalarModulus w = .ok z ∧ z ≠ 0) :
    ∃ s, lowerStatements { field := .scalar, bits } c.statements (paramState c) = .ok s ∧
      sys = s.system c ∧
      ∃ demands, Reference.run c.statements
          (c.paramEnv ((List.range' 1 c.paramNames.length).map (w.residue scalarModulus))) =
            .ok (s.env (w.residue scalarModulus), demands) ∧
        ∀ d ∈ demands, d.Met ∧ d.FitsField bits := by
  obtain ⟨s, hs, rfl⟩ := lower_eq_ok_iff.mp h
  have hw : Satisfies (f := .scalar) (w.residue scalarModulus) s := satisfies_of_residual hsat hdiv
  have hw₀ : w.residue scalarModulus oneIndex = 1 := by
    rw [Assignment.residue_of_get? hone, Int.cast_one]
  obtain ⟨demands, hrun, hmet⟩ := run_eq_of_lowerStatements hw₀ hs hw
  refine ⟨s, hs, rfl, demands, ?_, hmet⟩
  rw [← env_paramState]
  exact hrun

/-- The circuit `ratio = balance / minimum; ratio * minimum == balance; balance >= minimum`. -/
def balanceCircuit : Circuit where
  publicParams := [⟨"minimum", 0⟩]
  privateParams := [⟨"balance", 0⟩]
  statements := [
    .declare "ratio" false (.binary .div (.identifier "balance") (.identifier "minimum")),
    .assert (.binary .eq (.binary .mul (.identifier "ratio") (.identifier "minimum"))
      (.identifier "balance")) none,
    .assert (.binary .ge (.identifier "balance") (.identifier "minimum")) none]

/-- The system of `balanceCircuit` with comparisons of four bits. -/
def balanceSystem : ConstraintSystem :=
  (balanceCircuit.lower { bits := 4 }).toOption.getD default

/-- A balance of six over a minimum of three. -/
def balanceWitness : Assignment := .ofList [1, 6, 3, 2, 3, 1, 1, 0, 0]

theorem lower_sound_balance :
    balanceCircuit.lower { bits := 4 } = .ok balanceSystem ∧
      ∃ s, lowerStatements { field := .scalar, bits := 4 } balanceCircuit.statements
          (paramState balanceCircuit) = .ok s ∧
        balanceSystem = s.system balanceCircuit ∧
        ∃ demands, Reference.run balanceCircuit.statements
            (balanceCircuit.paramEnv ((List.range' 1 balanceCircuit.paramNames.length).map
              (balanceWitness.residue scalarModulus))) =
              .ok (s.env (balanceWitness.residue scalarModulus), demands) ∧
          ∀ d ∈ demands, d.Met ∧ d.FitsField 4 :=
  ⟨rfl, lower_sound balanceCircuit 4 balanceSystem rfl balanceWitness rfl (by decide +kernel) (by
    intro t num den hmem
    have hquot : Computation.quotient t num den = .quotient 3 [⟨1, 1⟩] [⟨1, 2⟩] := by
      have hmem' : Computation.quotient t num den ∈ [Computation.quotient 3 [⟨1, 1⟩] [⟨1, 2⟩],
        .subtract 4 1 2 0, .bits 4 [5, 6, 7, 8] 4] := hmem
      simpa using hmem'
    cases hquot
    exact ⟨3, by decide +kernel, by decide⟩)⟩

end ArrowCircuit.Lowering
