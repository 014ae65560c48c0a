import ArrowCircuit.Proofs.Lowering.Soundness
import Mathlib.Data.Nat.Digits.Defs

/-!
# What the constraints determine

Every index that lowering allocates is pinned by a constraint of its own: results of operations by
the operands, differences by the compared indices, bits by the difference, since a number below the
modulus has one binary form.  The exception is a division by zero: `q * d = n` holds for every `q`
when `d` and `n` are zero.  So two assignments that satisfy a lowered circuit and have the same
parameters are equal exactly when they agree on the results of divisions by zero.
-/

namespace ArrowCircuit.Lowering

/-! ## Binary forms -/

section

variable {p : Nat} [Fact p.Prime] {w v : Nat → ZMod p}

theorem bitSum_eq_ofDigits (w : Nat → ZMod p) (bits : List Nat) :
    bitSum w bits = ((Nat.ofDigits 2 (bits.map fun i => (w i).val) : Nat) : ZMod p) := by
  induction bits with
  | nil => simp [bitSum]
  | cons i rest ih =>
      rw [bitSum, ih, List.map_cons, Nat.ofDigits_cons]
      push_cast
      rw [ZMod.natCast_zmod_val]

theorem val_lt_two {x : ZMod p} (h : x = 0 ∨ x = 1) : x.val < 2 := by
  rcases h with rfl | rfl
  · rw [ZMod.val_zero]
    exact Nat.two_pos
  · rw [ZMod.val_one]
    exact Nat.one_lt_two

/-- **Bits.** As long as the modulus has room for them, bits are determined by the number they
write. -/
theorem eq_of_bitSum_eq {bits : List Nat} (hw : ∀ i ∈ bits, w i = 0 ∨ w i = 1)
    (hv : ∀ i ∈ bits, v i = 0 ∨ v i = 1) (hroom : 2 ^ bits.length ≤ p)
    (h : bitSum w bits = bitSum v bits) : ∀ i ∈ bits, w i = v i := by
  have hdigits : ∀ {u : Nat → ZMod p}, (∀ i ∈ bits, u i = 0 ∨ u i = 1) →
      ∀ d ∈ bits.map fun i => (u i).val, d < 2 := by
    intro u hu d hd
    obtain ⟨i, hi, rfl⟩ := List.mem_map.mp hd
    exact val_lt_two (hu i hi)
  have hbound : ∀ {u : Nat → ZMod p}, (∀ i ∈ bits, u i = 0 ∨ u i = 1) →
      Nat.ofDigits 2 (bits.map fun i => (u i).val) < p := by
    intro u hu
    have hlt := Nat.ofDigits_lt_base_pow_length Nat.one_lt_two (hdigits hu)
    rw [List.length_map] at hlt
    exact hlt.trans_le hroom
  -- the numbers are equal modulo the modulus, and both are below it
  rw [bitSum_eq_ofDigits, bitSum_eq_ofDigits, ZMod.natCast_eq_natCast_iff',
    Nat.mod_eq_of_lt (hbound hw), Nat.mod_eq_of_lt (hbound hv)] at h
  have hlists := Nat.ofDigits_inj_of_len_eq Nat.one_lt_two (by simp) (hdigits hw) (hdigits hv) h
  intro i hi
  exact ZMod.val_injective p (List.map_inj_left.mp hlists i hi)

end

/-! ## Two assignments -/

variable {f : PrimeField} {w v : Nat → ZMod f.modulus}

/-- Two assignments that satisfy what has been built and agree on the results of divisions by
zero. -/
structure Rivals (w v : Nat → ZMod f.modulus) (s : State) : Prop where
  one_left : w oneIndex = 1
  one_right : v oneIndex = 1
  left : ∀ k ∈ s.constraints, k.Holds w
  right : ∀ k ∈ s.constraints, k.Holds v
  quotient : ∀ t num den, .quotient t num den ∈ s.computations → den.value w = 0 →
    den.value v = 0 → w t = v t

namespace Rivals

theorem mono {s s' : State} (h : Rivals w v s') (hs : Grows s s') : Rivals w v s :=
  ⟨h.one_left, h.one_right, fun k hk => h.left k (hs.constraints.subset hk),
    fun k hk => h.right k (hs.constraints.subset hk),
    fun t num den hc => h.quotient t num den (hs.computations.subset hc)⟩

/-- A form pins the index that is defined by it. -/
theorem eq_of_linear {s : State} {t : LinearForm} {target : Nat} {c : Computation}
    (h : Rivals w v (s.define (linearConstraint f t target) c)) (ht : t.value w = t.value v) :
    w target = v target := by
  have hmem : linearConstraint f t target ∈
      (s.define (linearConstraint f t target) c).constraints := by simp [State.define]
  rw [(holds_linearConstraint h.one_left).mp (h.left _ hmem),
    (holds_linearConstraint h.one_right).mp (h.right _ hmem), ht]

/-- Operands pin the result of an operation; of a division by zero the two assignments have one
result in any case. -/
theorem eq_of_operation [Fact f.modulus.Prime] {s : State} {a : Arithmetic}
    {left right : LinearForm} {target : Nat}
    (h : Rivals w v (s.define (operationConstraint f left right target a)
      (operationComputation f left right target a)))
    (hl : left.value w = left.value v) (hr : right.value w = right.value v) :
    w target = v target := by
  have hmem : operationConstraint f left right target a ∈ (s.define
      (operationConstraint f left right target a)
      (operationComputation f left right target a)).constraints := by simp [State.define]
  have hw := h.left _ hmem
  have hv := h.right _ hmem
  cases a with
  | add | sub =>
      rw [operationConstraint, holds_linearConstraint h.one_left, LinearForm.value_merge,
        value_combine] at hw
      rw [operationConstraint, holds_linearConstraint h.one_right, LinearForm.value_merge,
        value_combine] at hv
      rw [hw, hv, hl, hr]
  | mul =>
      simp only [operationConstraint, Constraint.Holds, LinearForm.value_merge,
        LinearForm.value_single] at hw hv
      rw [← hw, ← hv, hl, hr]
  | div =>
      simp only [operationConstraint, Constraint.Holds, LinearForm.value_merge,
        LinearForm.value_single] at hw hv
      by_cases hzero : right.value w = 0
      · refine h.quotient target (left.merge f) (right.merge f) ?_ ?_ ?_
        · simp [State.define, operationComputation]
        · rw [LinearForm.value_merge, hzero]
        · rw [LinearForm.value_merge, ← hr, hzero]
      · rw [← hr, ← hl, ← hw] at hv
        exact mul_right_cancel₀ hzero hv.symm

end Rivals

theorem eqOn_Ico_append {F : Type} {w v : Nat → F} {a b c : Nat} (h : Set.EqOn w v (Set.Ico a b))
    (h' : Set.EqOn w v (Set.Ico b c)) : Set.EqOn w v (Set.Ico a c) := by
  intro i hi
  by_cases hb : i < b
  · exact h ⟨hi.1, hb⟩
  · exact h' ⟨Nat.not_lt.mp hb, hi.2⟩

theorem eqOn_Ico_cons {F : Type} {w v : Nat → F} {a b : Nat} (h : w a = v a)
    (h' : Set.EqOn w v (Set.Ico (a + 1) b)) : Set.EqOn w v (Set.Ico a b) := by
  intro i hi
  rcases Nat.eq_or_lt_of_le hi.1 with rfl | hlt
  · exact h
  · exact h' ⟨hlt, hi.2⟩

theorem eqOn_Ico_self {F : Type} {w v : Nat → F} (a : Nat) : Set.EqOn w v (Set.Ico a a) := by
  rw [Set.Ico_self]
  exact Set.eqOn_empty w v

/-! ## Expressions -/

variable [Fact f.modulus.Prime]

/-- **Expressions.** Where the names in scope have one value, an expression has one value, and so
has every index that its lowering allocates. -/
theorem Lowers.agree {e : Expr} {s s' : State} {t : LinearForm} (h : Lowers f e s t s')
    (henv : s.env w = s.env v) (hwv : Rivals w v s') :
    t.value w = t.value v ∧ Set.EqOn w v (Set.Ico s.next s'.next) := by
  induction h with
  | @name n b s hb =>
      have hlookup := congrArg (List.lookup n) henv
      rw [lookup_env, lookup_env, hb] at hlookup
      refine ⟨?_, eqOn_Ico_self _⟩
      rw [LinearForm.value_single, LinearForm.value_single]
      exact Option.some.inj hlookup
  | int z s => exact ⟨by simp [hwv.one_left, hwv.one_right], eqOn_Ico_self _⟩
  | bool b s => exact ⟨by simp [hwv.one_left, hwv.one_right], eqOn_Ico_self _⟩
  | @operation op a l r s s₁ s₂ left right ha hl hr ihl ihr =>
      have hwv₂ := hwv.mono (.define _ _ _)
      have henv₁ : s₁.env w = s₁.env v := by
        rw [hl.env_eq, hl.env_eq]
        exact henv
      obtain ⟨hleft, honl⟩ := ihl henv (hwv₂.mono hr.grows)
      obtain ⟨hright, honr⟩ := ihr henv₁ hwv₂
      -- the target is allocated before its operands and pinned after them
      have htarget := hwv.eq_of_operation hleft hright
      refine ⟨?_, eqOn_Ico_cons htarget (eqOn_Ico_append honl honr)⟩
      rw [LinearForm.value_single, LinearForm.value_single, htarget]
  | @negation e s s₁ terms he ih =>
      obtain ⟨hterms, hon⟩ := ih henv (hwv.mono (.define _ _ _))
      have htarget := hwv.eq_of_linear (by rw [LinearForm.value_negate, LinearForm.value_negate, hterms])
      refine ⟨?_, eqOn_Ico_cons htarget hon⟩
      rw [LinearForm.value_single, LinearForm.value_single, htarget]

theorem LowersAll.agree {es : List Expr} {s s' : State} {ts : List LinearForm}
    (h : LowersAll f es s ts s') (henv : s.env w = s.env v) (hwv : Rivals w v s') :
    Set.EqOn w v (Set.Ico s.next s'.next) := by
  induction h with
  | nil s => exact eqOn_Ico_self _
  | cons h hs ih =>
      have hon := (h.agree henv (hwv.mono hs.grows)).2
      exact eqOn_Ico_append hon (ih (by rw [h.env_eq, h.env_eq]; exact henv) hwv)

/-! ## Statements -/

theorem Equates.agree {l r : Expr} {s s' : State} (h : Equates f l r s s')
    (henv : s.env w = s.env v) (hwv : Rivals w v s') :
    Set.EqOn w v (Set.Ico s.next s'.next) := by
  cases h with
  | productLeft h | productRight h | sumLeft h | sumRight h | plain h =>
      exact h.agree henv (hwv.mono (.emit _ _ _ _))

theorem Materializes.agree {e : Expr} {s s' : State} {i : Nat} (h : Materializes f e s i s')
    (henv : s.env w = s.env v) (hwv : Rivals w v s') :
    w i = v i ∧ Set.EqOn w v (Set.Ico s.next s'.next) := by
  cases h with
  | held h ht =>
      obtain ⟨hvalue, hon⟩ := h.agree henv hwv
      rw [← LinearForm.value_merge, ← LinearForm.value_merge f v, ht, LinearForm.value_single,
        LinearForm.value_single] at hvalue
      exact ⟨hvalue, hon⟩
  | @stored s₁ t h =>
      obtain ⟨hvalue, hon⟩ := h.agree henv (hwv.mono ((Grows.alloc _).trans (.define _ _ _)))
      have htarget := hwv.eq_of_linear (by rw [LinearForm.value_merge, LinearForm.value_merge, hvalue])
      exact ⟨htarget, eqOn_Ico_append hon (eqOn_Ico_cons htarget (eqOn_Ico_self _))⟩

theorem Assigns.agree {e : Expr} {s s' : State} (h : Assigns f e s s')
    (henv : s.env w = s.env v) (hwv : Rivals w v s') :
    Set.EqOn w v (Set.Ico s.next s'.next) := by
  cases h with
  | operation h => exact (h.agree henv hwv).2
  | value h =>
      obtain ⟨hvalue, hon⟩ := h.agree henv (hwv.mono (.define _ _ _))
      exact eqOn_Ico_cons (hwv.eq_of_linear hvalue) hon

omit [Fact f.modulus.Prime] in
/-- An assignment allocates the index that it defines. -/
theorem Assigns.next_lt {e : Expr} {s s' : State} (h : Assigns f e s s') : s.next < s'.next := by
  cases h with
  | operation h =>
      cases h with
      | operation _ hl hr => exact hl.grows.next_le.trans hr.grows.next_le
  | value h => exact h.grows.next_le

section

variable {settings : Settings} [Fact settings.field.modulus.Prime]
  {w v : Nat → ZMod settings.field.modulus}

/-- **Order.** Compared indices pin their difference, and the difference its bits. -/
theorem eqOn_of_orderConstraints (hroom : 2 ^ settings.bits ≤ settings.field.modulus)
    (hw₀ : w oneIndex = 1) (hv₀ : v oneIndex = 1) {left right : Nat} {offset : Int} {target : Nat}
    (hl : w left = v left) (hr : w right = v right)
    (hw : ∀ k ∈ orderConstraints settings left right offset target, k.Holds w)
    (hv : ∀ k ∈ orderConstraints settings left right offset target, k.Holds v) :
    Set.EqOn w v (Set.Ico target (target + 1 + settings.bits)) := by
  obtain ⟨hdiff, hbits, hsum⟩ := (forall_mem_orderConstraints hw₀).mp hw
  obtain ⟨hdiff', hbits', hsum'⟩ := (forall_mem_orderConstraints hv₀).mp hv
  have htarget : w target = v target := by rw [hdiff, hdiff', hl, hr]
  have hbit := eq_of_bitSum_eq hbits hbits' (by rwa [List.length_range'])
    (hsum.symm.trans (htarget.trans hsum'))
  exact eqOn_Ico_cons htarget fun i hi => hbit i (List.mem_range'_1.mpr hi)

theorem order_agree (hroom : 2 ^ settings.bits ≤ settings.field.modulus) {left right : Nat}
    {offset : Int} {s : State} (hl : w left = v left) (hr : w right = v right)
    (hwv : Rivals w v (s.order settings left right offset)) :
    Set.EqOn w v (Set.Ico s.next (s.order settings left right offset).next) :=
  eqOn_of_orderConstraints hroom hwv.one_left hwv.one_right hl hr
    (fun k hk => hwv.left k (List.mem_append_right _ hk))
    (fun k hk => hwv.right k (List.mem_append_right _ hk))

/-- **Statements.** Where the names in scope have one value, the indices that a statement allocates
have one value, and so have the names behind it. -/
theorem LowersStatement.agree (hroom : 2 ^ settings.bits ≤ settings.field.modulus)
    {statement : Statement} {s s' : State} (h : LowersStatement settings statement s s')
    (henv : s.env w = s.env v) (hwv : Rivals w v s') :
    s'.env w = s'.env v ∧ Set.EqOn w v (Set.Ico s.next s'.next) := by
  cases h with
  | equality h =>
      refine ⟨?_, h.agree henv hwv⟩
      rw [env_congr h.scope_eq, env_congr h.scope_eq, henv]
  | @order op l r a b strict m s s₁ s₂ left right hop ha hb =>
      have hwv₂ : Rivals w v s₂ := hwv.mono (.order _ _ _ _)
      obtain ⟨hleft, hon⟩ := ha.agree henv (hwv₂.mono hb.grows)
      have henv₁ : s₁.env w = s₁.env v := by
        rw [env_congr ha.scope_eq, env_congr ha.scope_eq, henv]
      obtain ⟨hright, hon'⟩ := hb.agree henv₁ hwv₂
      have hscope : (s₂.order settings left right (orderOffset strict)).scope = s.scope :=
        hb.scope_eq.trans ha.scope_eq
      refine ⟨?_, eqOn_Ico_append hon (eqOn_Ico_append hon' (order_agree hroom hleft hright hwv))⟩
      rw [env_congr hscope, env_congr hscope, henv]
  | @truth e m s s₁ t he h =>
      have hscope : (s₁.emit settings.field t .one .one).scope = s.scope := h.scope_eq
      refine ⟨?_, (h.agree henv (hwv.mono (.emit _ _ _ _))).2⟩
      rw [env_congr hscope, env_congr hscope, henv]
  | declare _ h | assign _ _ h =>
      have hon := h.agree henv (hwv.mono (.bindName _ _ _))
      refine ⟨?_, hon⟩
      rw [env_bindName, env_bindName, env_congr h.scope_eq, env_congr h.scope_eq, henv,
        hon ⟨Nat.le_refl _, h.next_lt⟩]

/-- **Programs.** What two assignments agree on before a program they agree on behind it. -/
theorem agree_of_lowerStatements (hroom : 2 ^ settings.bits ≤ settings.field.modulus)
    {statements : List Statement} {s s' : State}
    (h : lowerStatements settings statements s = .ok s') (henv : s.env w = s.env v)
    (hwv : Rivals w v s') : Set.EqOn w v (Set.Ico s.next s'.next) := by
  induction statements generalizing s with
  | nil =>
      cases h
      exact eqOn_Ico_self _
  | cons statement rest ih =>
      obtain ⟨s₁, hstep, hrest⟩ := lowerStatements_cons h
      obtain ⟨henv₁, hon⟩ :=
        hstep.agree hroom henv (hwv.mono (grows_of_lowerStatements hrest))
      exact eqOn_Ico_append hon (ih hrest henv₁)

end

/-! ## Circuits -/

theorem two_pow_le_scalarModulus {bits : Nat} (h : bits ≤ maxBits) :
    2 ^ bits ≤ PrimeField.scalar.modulus :=
  (Nat.pow_le_pow_right Nat.two_pos h).trans (by decide)

/-- The indices of the parameters, private and public, follow the constant one. -/
theorem inputs_system (s : State) (c : Circuit) :
    (s.system c).privateInputs ++ (s.system c).publicInputs =
      List.range' 1 c.paramNames.length := by
  have hlen : c.paramNames.length = c.privateParams.length + c.publicParams.length := by
    simp [Circuit.paramNames]
  rw [hlen, ← List.range'_append_1]
  rfl

theorem writesBelow_paramState (c : Circuit) : (paramState c).WritesBelow := by
  rw [paramState_eq]
  exact nofun

/-- **Determinacy.** Let two assignments with one at index zero satisfy every constraint of a lowered
circuit modulo the scalar modulus, and have the same residues at the indices of the parameters.  They
have the same residues everywhere exactly when they have the same residue at the target of every
quotient whose denominator is zero under both.  In a circuit that is not made to divide by zero,
intermediate results, variables, quotients, differences and bits are thus determined by the
parameters. -/
theorem agree_iff_agree_on_zero_divisions (c : Circuit) (bits : Nat) (hbits : bits ≤ maxBits)
    (sys : ConstraintSystem) (h : c.lower { field := .scalar, bits } = .ok sys) (w v : Assignment)
    (hw₀ : w.residue scalarModulus oneIndex = 1) (hv₀ : v.residue scalarModulus oneIndex = 1)
    (hinputs : ∀ i ∈ sys.privateInputs ++ sys.publicInputs,
      w.residue scalarModulus i = v.residue scalarModulus i)
    (hw : ∀ k ∈ sys.constraints, k.residual scalarModulus w = .ok 0)
    (hv : ∀ k ∈ sys.constraints, k.residual scalarModulus v = .ok 0) :
    (∀ i < sys.numWitnesses, w.residue scalarModulus i = v.residue scalarModulus i) ↔
      ∀ t num den, .quotient t num den ∈ sys.computations →
        den.value (w.residue scalarModulus) = 0 → den.value (v.residue scalarModulus) = 0 →
        w.residue scalarModulus t = v.residue scalarModulus t := by
  obtain ⟨s, hs, rfl⟩ := lower_eq_ok_iff.mp h
  rw [inputs_system] at hinputs
  have hbelow := writesBelow_of_lowerStatements hs (writesBelow_paramState c)
  constructor
  · intro hall t num den hmem _ _
    exact hall t (hbelow _ hmem t List.mem_cons_self)
  · intro hquotient
    have hwv : Rivals (f := .scalar) (w.residue scalarModulus) (v.residue scalarModulus) s :=
      ⟨hw₀, hv₀, fun k hk => (Constraint.residual_eq_zero_iff.mp (hw k hk)).2,
        fun k hk => (Constraint.residual_eq_zero_iff.mp (hv k hk)).2, hquotient⟩
    have henv : (paramState c).env (w.residue scalarModulus) =
        (paramState c).env (v.residue scalarModulus) := by
      rw [env_paramState, env_paramState, List.map_congr_left hinputs]
    have hon := agree_of_lowerStatements (two_pow_le_scalarModulus hbits) hs henv hwv
    rw [paramState_eq] at hon
    -- index zero, then the parameters, then what the statements allocate
    have hparams : Set.EqOn (w.residue scalarModulus) (v.residue scalarModulus)
        (Set.Ico 1 (1 + c.paramNames.length)) := fun i hi => hinputs i (List.mem_range'_1.mpr hi)
    intro i hi
    exact eqOn_Ico_cons (hw₀.trans hv₀.symm) (eqOn_Ico_append hparams hon) ⟨Nat.zero_le i, hi⟩

/-- The circuit `ratio = balance / minimum; balance == expected`. -/
def ratioCircuit : Circuit where
  publicParams := [⟨"expected", 0⟩]
  privateParams := [⟨"balance", 0⟩, ⟨"minimum", 1⟩]
  statements := [
    .declare "ratio" false (.binary .div (.identifier "balance") (.identifier "minimum")),
    .assert (.binary .eq (.identifier "balance") (.identifier "expected")) none]

/-- The system of `ratioCircuit`. -/
def ratioSystem : ConstraintSystem := (ratioCircuit.lower {}).toOption.getD default

/-- A balance of zero over a minimum of zero, with any ratio. -/
def zeroRatio (ratio : Int) : Assignment := .ofList [1, 0, 0, 0, ratio]

/-- Zero over zero is both zero and seven. -/
theorem agree_iff_agree_on_zero_divisions_ratio :
    (∀ k ∈ ratioSystem.constraints, k.residual scalarModulus (zeroRatio 0) = .ok 0) ∧
      (∀ k ∈ ratioSystem.constraints, k.residual scalarModulus (zeroRatio 7) = .ok 0) ∧
      ¬∀ i < ratioSystem.numWitnesses,
        (zeroRatio 0).residue scalarModulus i = (zeroRatio 7).residue scalarModulus i := by
  have hzero : ∀ k ∈ ratioSystem.constraints, k.residual scalarModulus (zeroRatio 0) = .ok 0 := by
    decide +kernel
  have hseven : ∀ k ∈ ratioSystem.constraints, k.residual scalarModulus (zeroRatio 7) = .ok 0 := by
    decide +kernel
  refine ⟨hzero, hseven, fun hall => ?_⟩
  have hratio := (agree_iff_agree_on_zero_divisions ratioCircuit defaultBits (by decide) ratioSystem
    rfl (zeroRatio 0) (zeroRatio 7) Nat.cast_one Nat.cast_one (by decide +kernel) hzero hseven).mp
    hall 4 [⟨1, 1⟩] [⟨1, 2⟩] (by decide +kernel) (by decide +kernel) (by decide +kernel)
  exact absurd hratio (by decide +kernel)

end ArrowCircuit.Lowering
