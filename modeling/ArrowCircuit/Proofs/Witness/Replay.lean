import ArrowCircuit.Proofs.Lowering.Soundness
import ArrowCircuit.Witness.Generation

/-!
# Replaying the schedule of an expression

Lowering leaves behind a schedule of computations.  Carrying out the part of it that belongs to an
expression fills the indices that the expression has allocated, makes its constraints hold, and
gives its form the reference value; it fails exactly when the expression divides by zero.

Between two states an assignment advances (`Advances`): what was below the next index stays, what
was allocated in between is filled in, and nothing is known beyond.
-/

namespace ArrowCircuit.Lowering

open Witness

variable {f : PrimeField}

/-! ## Single computations -/

theorem applyAll_append (cs ds : List Computation) (w : Assignment) :
    applyAll f (cs ++ ds) w = applyAll f cs w >>= applyAll f ds := by
  induction cs generalizing w with
  | nil => rfl
  | cons c rest ih =>
      rw [List.cons_append, applyAll, applyAll]
      cases apply f w c with
      | error e => rfl
      | ok w' => exact ih w'

section

variable [Fact f.modulus.Prime] {w : Assignment}

theorem evalForm_of_covers {terms : LinearForm} (h : w.Covers terms) :
    evalForm f w terms = .ok ((terms.value (w.residue f.modulus)).val : Int) := by
  rw [evalForm, LinearForm.eval_of_covers h]
  rfl

theorem apply_linear {target : Nat} {terms : LinearForm} (h : w.Covers terms) :
    apply f w (.linear target terms) =
      .ok (w.set target ((terms.value (w.residue f.modulus)).val : Int)) := by
  simp only [apply, evalForm_of_covers h, bind, Except.bind, pure, Except.pure]

theorem reduce_val_mul (x y : ZMod f.modulus) :
    f.reduce ((x.val : Int) * (y.val : Int)) = ((x * y).val : Int) := by
  rw [f.reduce_eq_val]
  push_cast
  rw [ZMod.natCast_zmod_val, ZMod.natCast_zmod_val]

theorem apply_product {target : Nat} {left right : LinearForm} (hl : w.Covers left)
    (hr : w.Covers right) :
    apply f w (.product target left right) =
      .ok (w.set target ((left.value (w.residue f.modulus) *
        right.value (w.residue f.modulus)).val : Int)) := by
  simp only [apply, evalForm_of_covers hl, evalForm_of_covers hr, bind, Except.bind, pure,
    Except.pure, reduce_val_mul]

theorem apply_quotient {target : Nat} {num den : LinearForm} (hn : w.Covers num)
    (hd : w.Covers den) (h : den.value (w.residue f.modulus) ≠ 0) :
    apply f w (.quotient target num den) =
      .ok (w.set target ((num.value (w.residue f.modulus) /
        den.value (w.residue f.modulus)).val : Int)) := by
  have hval : ((den.value (w.residue f.modulus)).val : Int) ≠ 0 := by
    rw [Ne, Int.natCast_eq_zero, ZMod.val_eq_zero]
    exact h
  have hcast : (((den.value (w.residue f.modulus)).val : Int) : ZMod f.modulus) =
      den.value (w.residue f.modulus) := by
    rw [Int.cast_natCast, ZMod.natCast_zmod_val]
  have hinv := f.inv_eq (by rw [hcast]; exact h)
  rw [hcast] at hinv
  simp only [apply, evalForm_of_covers hd, evalForm_of_covers hn, bind, Except.bind, pure,
    Except.pure, hval, if_false, hinv, Except.mapError, reduce_val_mul, div_eq_mul_inv]

theorem apply_quotient_zero {target : Nat} {num den : LinearForm} (hd : w.Covers den)
    (h : den.value (w.residue f.modulus) = 0) :
    apply f w (.quotient target num den) = .error (.divisionByZero target) := by
  simp only [apply, evalForm_of_covers hd, h, ZMod.val_zero, Nat.cast_zero, bind, Except.bind,
    if_true]

end

/-! ## Covered constraints -/

section Covers

variable {w : Assignment} {left right : LinearForm} {target : Nat}

theorem Covers.combine (hl : w.Covers left) (hr : w.Covers right) (isSum : Bool) :
    w.Covers (combine f isSum left right) := by
  refine Assignment.covers_append.mpr ⟨hl, ?_⟩
  cases isSum with
  | true => exact hr
  | false => exact hr.negate f

theorem covers_linearConstraint {terms : LinearForm} (h : w.Covers terms)
    (ht : w.Covers (.single target)) (hone : (w.get? oneIndex).isSome) :
    w.CoversConstraint (linearConstraint f terms target) :=
  ⟨h.merge f, (Assignment.covers_singleton hone).merge f, ht.merge f⟩

theorem covers_operationConstraint (hl : w.Covers left) (hr : w.Covers right)
    (ht : w.Covers (.single target)) (hone : (w.get? oneIndex).isSome) (a : Arithmetic) :
    w.CoversConstraint (operationConstraint f left right target a) := by
  cases a with
  | add | sub => exact covers_linearConstraint ((Covers.combine hl hr _).merge f) ht hone
  | mul => exact ⟨(hl.merge f).merge f, (hr.merge f).merge f, ht.merge f⟩
  | div => exact ⟨ht.merge f, (hr.merge f).merge f, (hl.merge f).merge f⟩

end Covers

/-! ## Replay -/

/-- Carries out the computations that one state has beyond another. -/
def replay (f : PrimeField) (s s' : State) (w : Assignment) : Witness.Result Assignment :=
  applyAll f (s'.computations.drop s.computations.length) w

theorem replay_of_append {s s' : State} {cs : List Computation}
    (h : s'.computations = s.computations ++ cs) (w : Assignment) :
    replay f s s' w = applyAll f cs w := by
  rw [replay, h, List.drop_left]

/-- A state with the same schedule asks for nothing. -/
theorem replay_of_eq {s s' : State} (h : s'.computations = s.computations) (w : Assignment) :
    replay f s s' w = .ok w := by
  rw [replay_of_append (h.trans (List.append_nil _).symm)]
  rfl

theorem replay_trans {s s₁ s' : State} (h : Grows s s₁) (h' : Grows s₁ s') (w : Assignment) :
    replay f s s' w = replay f s s₁ w >>= replay f s₁ s' := by
  obtain ⟨cs, hcs⟩ := h.computations
  obtain ⟨ds, hds⟩ := h'.computations
  have hall : s'.computations = s.computations ++ (cs ++ ds) := by
    rw [← hds, ← hcs, List.append_assoc]
  rw [replay_of_append hall, replay_of_append hcs.symm, applyAll_append]
  congr 1
  funext w'
  rw [replay_of_append hds.symm]

/-- An index set aside asks for nothing. -/
theorem replay_alloc (s s' : State) (w : Assignment) :
    replay f s s' w = replay f s.alloc.2 s' w :=
  rfl

theorem replay_define (s : State) (k : Constraint) (c : Computation) (w : Assignment) :
    replay f s (s.define k c) w = apply f w c := by
  rw [replay_of_append rfl, applyAll]
  cases apply f w c <;> rfl

/-- A failed replay stays failed whatever is scheduled behind. -/
theorem fails_replay_trans {s s₁ s' : State} {w : Assignment} (hw : Fails (replay f s s₁ w))
    (h : Grows s s₁) (h' : Grows s₁ s') : Fails (replay f s s' w) := by
  rw [Lowering.replay_trans h h']
  exact hw.bind _

/-! ## Advancing -/

/-- An assignment is ready for what is lowered next: it has one at index zero, only representatives,
a value for every name and every constraint, and nothing from the next index on. -/
structure Ready (f : PrimeField) (s : State) (w : Assignment) : Prop where
  one : w.get? oneIndex = some 1
  canonical : ∀ i v, w.get? i = some v → Canonical f.modulus v
  fresh : ∀ i, s.next ≤ i → w.get? i = none
  bound : ∀ entry ∈ s.scope, (w.get? entry.2.index).isSome
  covered : ∀ k ∈ s.constraints, w.CoversConstraint k

namespace Ready

variable {s : State} {w : Assignment}

theorem residue_one (h : Ready f s w) : w.residue f.modulus oneIndex = 1 := by
  rw [Assignment.residue_of_get? h.one, Int.cast_one]

theorem isSome_one (h : Ready f s w) : (w.get? oneIndex).isSome := by
  rw [h.one, Option.isSome_some]

theorem covers_one (h : Ready f s w) : w.Covers .one :=
  Assignment.covers_singleton h.isSome_one

/-- What stands at an index is the representative of its residue. -/
theorem get?_eq [NeZero f.modulus] (h : Ready f s w) {i : Nat} (hi : (w.get? i).isSome) :
    w.get? i = some ((w.residue f.modulus i).val : Int) := by
  obtain ⟨v, hv⟩ := Option.isSome_iff_exists.mp hi
  rw [Assignment.residue_of_get? hv, (h.canonical i v hv).val_intCast, hv]

theorem isSome_of_lookup? (h : Ready f s w) {n : String}
    {b : Binding} (hb : s.lookup? n = some b) : (w.get? b.index).isSome := by
  obtain ⟨l, r, hscope, _⟩ := List.lookup_eq_some_iff.mp hb
  exact h.bound (n, b) (by simp [hscope])

theorem alloc (h : Ready f s w) : Ready f s.alloc.2 w :=
  ⟨h.one, h.canonical, fun i hi => h.fresh i (Nat.le_of_succ_le hi), h.bound, h.covered⟩

end Ready

/-- From one state to another an assignment keeps what it has and gains the indices in between. -/
structure Advances (f : PrimeField) (s s' : State) (w w' : Assignment) : Prop where
  ready : Ready f s' w'
  agree : ∀ i, i < s.next → w'.get? i = w.get? i
  filled : ∀ i, s.next ≤ i → i < s'.next → (w'.get? i).isSome

namespace Advances

variable {s s₁ s' : State} {w w₁ w' : Assignment}

theorem refl (h : Ready f s w) : Advances f s s w w :=
  ⟨h, fun _ _ => rfl, fun _ hle hlt => absurd hlt (by omega)⟩

theorem trans (hs : s.next ≤ s₁.next) (h : Advances f s s₁ w w₁) (h' : Advances f s₁ s' w₁ w') :
    Advances f s s' w w' := by
  refine ⟨h'.ready, ?_, ?_⟩
  · intro i hi
    rw [h'.agree i (by omega), h.agree i hi]
  · intro i hi hi'
    by_cases hlt : i < s₁.next
    · rw [h'.agree i hlt]
      exact h.filled i hi hlt
    · exact h'.filled i (by omega) hi'

/-- An advanced assignment has all values of the one before. -/
theorem le (hw : Ready f s w) (h : Advances f s s' w w') : w.Le w' := by
  intro i x hx
  by_cases hi : i < s.next
  · rw [h.agree i hi, hx]
  · rw [hw.fresh i (by omega)] at hx
    cases hx

/-- The names in scope keep their values. -/
theorem env_eq (hw : Ready f s w) (h : Advances f s s' w w') (hscope : s'.scope = s.scope) :
    s'.env (w'.residue f.modulus) = s.env (w.residue f.modulus) := by
  rw [State.env, hscope, State.env]
  apply List.map_congr_left
  rintro ⟨n, b⟩ hentry
  dsimp only
  rw [(h.le hw).residue_eq (hw.bound (n, b) hentry)]

end Advances

/-! ## Satisfied constraints -/

/-- Every constraint of a state is satisfied. -/
def Satisfied (f : PrimeField) (s : State) (w : Assignment) : Prop :=
  ∀ k ∈ s.constraints, k.Holds (w.residue f.modulus)

theorem holds_iff_of_le {w w' : Assignment} (hle : w.Le w') {k : Constraint}
    (hk : w.CoversConstraint k) :
    k.Holds (w'.residue f.modulus) ↔ k.Holds (w.residue f.modulus) := by
  rw [Constraint.Holds, Constraint.Holds, hle.value_eq hk.1, hle.value_eq hk.2.1,
    hle.value_eq hk.2.2]

/-- When an assignment and a state grow, what was there before is satisfied if it was, and what was
added is to be looked at. -/
theorem Ready.satisfied_iff_of_le {s s' : State} {w w' : Assignment} {ks : List Constraint}
    (hw : Ready f s w) (hle : w.Le w') (hks : s'.constraints = s.constraints ++ ks) :
    Satisfied f s' w' ↔ Satisfied f s w ∧ ∀ k ∈ ks, k.Holds (w'.residue f.modulus) := by
  simp only [Satisfied, hks, List.mem_append, or_imp, forall_and]
  apply and_congr_left'
  constructor
  · exact fun hold k hk => (holds_iff_of_le hle (hw.covered k hk)).mp (hold k hk)
  · exact fun hold k hk => (holds_iff_of_le hle (hw.covered k hk)).mpr (hold k hk)

/-- An assignment is satisfied as the generator and the verifier check it. -/
theorem Ready.satisfied_iff_residual [NeZero f.modulus] {s : State} {w : Assignment}
    (h : Ready f s w) :
    Satisfied f s w ↔ ∀ k ∈ s.constraints, k.residual f.modulus w = .ok 0 := by
  constructor
  · exact fun hsat k hk => Constraint.residual_eq_zero_iff.mpr ⟨h.covered k hk, hsat k hk⟩
  · exact fun hsat k hk => (Constraint.residual_eq_zero_iff.mp (hsat k hk)).2

/-! ## Filling in -/

/-- The replay between two states advances an assignment, and satisfies what was added. -/
structure Fills (f : PrimeField) (s s' : State) (w w' : Assignment) : Prop where
  replayed : replay f s s' w = .ok w'
  advances : Advances f s s' w w'
  satisfied : Satisfied f s' w' ↔ Satisfied f s w

namespace Fills

variable {s s₁ s' : State} {w w₁ w' : Assignment}

theorem refl (h : Ready f s w) : Fills f s s w w :=
  ⟨replay_of_eq rfl w, .refl h, Iff.rfl⟩

theorem ready (h : Fills f s s' w w') : Ready f s' w' := h.advances.ready

/-- After what has been filled in the replay goes on. -/
theorem replay_trans (h : Fills f s s₁ w w₁) (hs : Grows s s₁) (hs' : Grows s₁ s') :
    replay f s s' w = replay f s₁ s' w₁ := by
  rw [Lowering.replay_trans hs hs', h.replayed]
  rfl

theorem trans (hs : Grows s s₁) (hs' : Grows s₁ s') (h : Fills f s s₁ w w₁)
    (h' : Fills f s₁ s' w₁ w') : Fills f s s' w w' := by
  refine ⟨?_, h.advances.trans hs.next_le h'.advances, h'.satisfied.trans h.satisfied⟩
  rw [h.replay_trans hs hs']
  exact h'.replayed

end Fills

/-! ## Targets -/

theorem le_set_of_none {w : Assignment} {i : Nat} {v : Int} (h : w.get? i = none) :
    w.Le (w.set i v) := by
  intro j x hx
  rw [Assignment.get?_set, if_neg ?_, hx]
  rintro rfl
  rw [h] at hx
  cases hx

/-- A target that was set aside is still without a value when its operands have been filled in. -/
theorem Fills.pending {s s₁ : State} {w w₁ : Assignment} (hw : Ready f s w)
    (h : Fills f s.alloc.2 s₁ w w₁) : w₁.get? s.next = none := by
  rw [h.advances.agree s.next (Nat.lt_succ_self _)]
  exact hw.fresh s.next (Nat.le_refl _)

/-- A covered constraint keeps an assignment ready. -/
theorem Ready.snoc {s s' : State} {w : Assignment} (h : Ready f s w) {k : Constraint}
    (hk : w.CoversConstraint k) (hks : s'.constraints = s.constraints ++ [k])
    (hnext : s'.next = s.next) (hscope : s'.scope = s.scope) : Ready f s' w := by
  refine ⟨h.one, h.canonical, hnext ▸ h.fresh, hscope ▸ h.bound, ?_⟩
  intro k' hk'
  rw [hks] at hk'
  rcases List.mem_append.mp hk' with hk' | hk'
  · exact h.covered k' hk'
  · rw [List.mem_singleton.mp hk']
    exact hk

variable [Fact f.modulus.Prime]

theorem residue_set_val (w : Assignment) (i : Nat) (x : ZMod f.modulus) :
    (w.set i (x.val : Int)).residue f.modulus i = x := by
  rw [Assignment.residue_of_get? (by rw [Assignment.get?_set, if_pos rfl]), Int.cast_natCast,
    ZMod.natCast_zmod_val]

/-- A value at an unused index below the next one keeps an assignment ready. -/
theorem Ready.set {s : State} {w : Assignment} (h : Ready f s w) {i : Nat}
    (hnone : w.get? i = none) (hi : i < s.next) (x : ZMod f.modulus) :
    Ready f s (w.set i (x.val : Int)) := by
  have hle : w.Le (w.set i (x.val : Int)) := le_set_of_none hnone
  refine ⟨hle _ _ h.one, ?_, ?_, fun e he => hle.isSome (h.bound e he), ?_⟩
  · intro j v hv
    rw [Assignment.get?_set] at hv
    by_cases hj : j = i
    · rw [if_pos hj, Option.some.injEq] at hv
      rw [← hv]
      exact canonical_val x
    · rw [if_neg hj] at hv
      exact h.canonical j v hv
  · intro j hj
    rw [Assignment.get?_set, if_neg (by omega)]
    exact h.fresh j hj
  · intro k hk
    obtain ⟨ha, hb, hc⟩ := h.covered k hk
    exact ⟨hle.covers ha, hle.covers hb, hle.covers hc⟩

/-- **Targets.** A target is set aside, its operands are filled in, and then a computation fills in
the target: all of this satisfies what was added if the constraint of the target holds. -/
theorem Fills.define {s s₁ : State} {w w₁ : Assignment} (hw : Ready f s w)
    (h : Fills f s.alloc.2 s₁ w w₁) (hs : Grows s.alloc.2 s₁) {k : Constraint} {c : Computation}
    {x : ZMod f.modulus} (hc : apply f w₁ c = .ok (w₁.set s.next (x.val : Int)))
    (hcov : (w₁.set s.next (x.val : Int)).CoversConstraint k)
    (hk : k.Holds ((w₁.set s.next (x.val : Int)).residue f.modulus)) :
    Fills f s (s₁.define k c) w (w₁.set s.next (x.val : Int)) := by
  have hnone := h.pending hw
  have hnext : s.next < s₁.next := hs.next_le
  have hready : Ready f (s₁.define k c) (w₁.set s.next (x.val : Int)) :=
    (h.ready.set hnone hnext x).snoc hcov rfl rfl rfl
  refine ⟨?_, ⟨hready, ?_, ?_⟩, ?_⟩
  · rw [replay_alloc, h.replay_trans hs (.define s₁ k c),
      replay_define, hc]
  · intro i hi
    rw [Assignment.get?_set, if_neg (by omega)]
    exact h.advances.agree i (Nat.lt_succ_of_lt hi)
  · intro i hi hi'
    rw [Assignment.get?_set]
    by_cases heq : i = s.next
    · rw [if_pos heq, Option.isSome_some]
    · rw [if_neg heq]
      exact h.advances.filled i (by simp only [State.alloc]; omega) hi'
  · rw [h.ready.satisfied_iff_of_le (le_set_of_none hnone) (show _ = _ ++ [k] from rfl),
      h.satisfied]
    exact and_iff_left fun k' hk' => List.mem_singleton.mp hk' ▸ hk

/-! ## Operations -/

section Operation

variable {w : Assignment} {left right : LinearForm} {op : BinaryOp} {a : Arithmetic}

/-- The computation of an operation gives the reference result, or fails where there is none. -/
theorem apply_operation (ha : arithmetic? op = some a) (hl : w.Covers left)
    (hr : w.Covers right) (target : Nat) :
    (∃ x, Reference.apply op (left.value (w.residue f.modulus))
        (right.value (w.residue f.modulus)) = .ok x ∧
      apply f w (operationComputation f left right target a) =
        .ok (w.set target (x.val : Int))) ∨
    Fails (Reference.apply op (left.value (w.residue f.modulus))
        (right.value (w.residue f.modulus))) ∧
      Fails (apply f w (operationComputation f left right target a)) := by
  have hlm := hl.merge f
  have hrm := hr.merge f
  cases op with
  | add | sub =>
      cases ha
      refine .inl ⟨_, rfl, ?_⟩
      rw [operationComputation, apply_linear ((Covers.combine hl hr _).merge f),
        LinearForm.value_merge, value_combine]
      rfl
  | mul =>
      cases ha
      refine .inl ⟨_, rfl, ?_⟩
      rw [operationComputation, apply_product hlm hrm, LinearForm.value_merge,
        LinearForm.value_merge]
  | div =>
      cases ha
      by_cases h0 : right.value (w.residue f.modulus) = 0
      · refine .inr ⟨⟨.divisionByZero, by rw [Reference.apply, if_pos h0]⟩, ?_⟩
        exact ⟨_, apply_quotient_zero hrm (by rw [LinearForm.value_merge, h0])⟩
      · refine .inl ⟨_, by rw [Reference.apply, if_neg h0], ?_⟩
        rw [operationComputation, apply_quotient hlm hrm (by rwa [LinearForm.value_merge]),
          LinearForm.value_merge, LinearForm.value_merge]
  | _ => cases ha

end Operation

/-! ## Expressions -/

/-- The replay of an expression fills in what its form needs, and the form then has the value of the
expression. -/
structure Computes (f : PrimeField) [Fact f.modulus.Prime] (e : Expr) (s : State) (t : LinearForm) (s' : State)
    (w w' : Assignment) : Prop where
  fills : Fills f s s' w w'
  covers : w'.Covers t
  eval_eq : Reference.eval (s.env (w.residue f.modulus)) e = .ok (t.value (w'.residue f.modulus))

/-- The last step of an operation or negation: its target is set to its value. -/
theorem Computes.define {e : Expr} {s s₁ : State} {w w₁ : Assignment} (hw : Ready f s w)
    (h : Fills f s.alloc.2 s₁ w w₁) (hs : Grows s.alloc.2 s₁) {k : Constraint} {c : Computation}
    {x : ZMod f.modulus} (he : Reference.eval (s.env (w.residue f.modulus)) e = .ok x)
    (hc : apply f w₁ c = .ok (w₁.set s.next (x.val : Int)))
    (hcov : (w₁.set s.next (x.val : Int)).CoversConstraint k)
    (hk : k.Holds ((w₁.set s.next (x.val : Int)).residue f.modulus)) :
    Computes f e s (.single s.next) (s₁.define k c) w (w₁.set s.next (x.val : Int)) := by
  refine ⟨h.define hw hs hc hcov hk, Assignment.covers_singleton ?_, ?_⟩
  · rw [Assignment.get?_set, if_pos rfl, Option.isSome_some]
  · rw [he, LinearForm.value_single, residue_set_val]

/-- What has been filled in before an expression is computed. -/
theorem Computes.trans {e : Expr} {s s₁ s' : State} {t : LinearForm} {w w₁ w' : Assignment}
    (hw : Ready f s w) (h : Fills f s s₁ w w₁) (hs : Grows s s₁) (hscope : s₁.scope = s.scope)
    (h' : Computes f e s₁ t s' w₁ w') (hs' : Grows s₁ s') : Computes f e s t s' w w' := by
  refine ⟨h.trans hs hs' h'.fills, h'.covers, ?_⟩
  rw [← h.advances.env_eq hw hscope]
  exact h'.eval_eq

/-- A target set to the value of a form, as the constraint of the target says. -/
theorem Computes.linear {e : Expr} {s s₁ : State} {w w₁ : Assignment} (hw : Ready f s w)
    (h : Fills f s.alloc.2 s₁ w w₁) (hs : Grows s.alloc.2 s₁) {t u : LinearForm} 
    (he : Reference.eval (s.env (w.residue f.modulus)) e = .ok (t.value (w₁.residue f.modulus)))
    (ht : w₁.Covers t) (hu : w₁.Covers u) (htu : u.value (w₁.residue f.modulus) = t.value (w₁.residue f.modulus)) :
    Computes f e s (.single s.next) (s₁.define (linearConstraint f t s.next) (.linear s.next u)) w
      (w₁.set s.next ((t.value (w₁.residue f.modulus)).val : Int)) := by
  have hle : w₁.Le (w₁.set s.next ((t.value (w₁.residue f.modulus)).val : Int)) :=
    le_set_of_none (h.pending hw)
  refine .define hw h hs he ?_ ?_ ?_
  · rw [apply_linear hu, htu]
  · refine covers_linearConstraint (hle.covers ht) (Assignment.covers_singleton ?_)
      (hle.isSome h.ready.isSome_one)
    rw [Assignment.get?_set, if_pos rfl, Option.isSome_some]
  · rw [holds_linearConstraint ?_, residue_set_val, hle.value_eq ht]
    rw [hle.residue_eq h.ready.isSome_one, h.ready.residue_one]

theorem fails_eval_right {env : Reference.Env (ZMod f.modulus)} {op : BinaryOp} {l r : Expr}
    (h : Fails (Reference.eval env r)) : Fails (Reference.eval env (.binary op l r)) := by
  rw [Reference.eval]
  cases Reference.eval env l with
  | error e => exact ⟨e, rfl⟩
  | ok x => exact h.bind _

/-- What the replay of an expression comes to: it gives the expression its reference value, or fails
where the expression has none. -/
def Outcome (f : PrimeField) [Fact f.modulus.Prime] (e : Expr) (s : State) (t : LinearForm)
    (s' : State) (w : Assignment) : Prop :=
  (∃ w', Computes f e s t s' w w') ∨
    Fails (replay f s s' w) ∧ Fails (Reference.eval (s.env (w.residue f.modulus)) e)

/-- An operation whose operands have been filled in. -/
theorem outcome_operation {op : BinaryOp} {a : Arithmetic} {l r : Expr} {s s₂ : State}
    {w w₂ : Assignment} {left right : LinearForm} (ha : arithmetic? op = some a)
    (hw : Ready f s w) (h : Fills f s.alloc.2 s₂ w w₂) (hs : Grows s.alloc.2 s₂)
    (hl : w₂.Covers left) (hr : w₂.Covers right)
    (hel : Reference.eval (s.env (w.residue f.modulus)) l =
      .ok (left.value (w₂.residue f.modulus)))
    (her : Reference.eval (s.env (w.residue f.modulus)) r =
      .ok (right.value (w₂.residue f.modulus))) :
    Outcome f (.binary op l r) s (.single s.next)
      (s₂.define (operationConstraint f left right s.next a)
        (operationComputation f left right s.next a)) w := by
  have heval : Reference.eval (s.env (w.residue f.modulus)) (.binary op l r) = _ :=
    Reference.eval_binary hel her
  have happly := apply_operation (f := f) ha hl hr s.next
  rcases happly with ⟨x, hx, hc⟩ | ⟨hfail, hc⟩
  · have hle : w₂.Le (w₂.set s.next (x.val : Int)) := le_set_of_none (h.pending hw)
    have hone : (w₂.set s.next (x.val : Int)).residue f.modulus oneIndex = 1 := by
      rw [hle.residue_eq h.ready.isSome_one, h.ready.residue_one]
    refine .inl ⟨_, .define hw h hs (heval.trans hx) hc ?_ ?_⟩
    · refine covers_operationConstraint (hle.covers hl) (hle.covers hr)
        (Assignment.covers_singleton ?_) (hle.isSome h.ready.isSome_one) a
      rw [Assignment.get?_set, if_pos rfl, Option.isSome_some]
    · rw [holds_operationConstraint hone ha, hle.value_eq hl, hle.value_eq hr, residue_set_val]
      · exact hx
      · rintro rfl
        rw [hle.value_eq hr]
        have hop : op = .div := by cases op <;> first | rfl | cases ha
        rw [hop] at hx
        exact Reference.ne_zero_of_apply_div hx
  · refine .inr ⟨?_, heval ▸ hfail⟩
    rw [replay_alloc, h.replay_trans hs (.define _ _ _), replay_define]
    exact hc

/-- **Expressions.** The replay of an expression gives it its reference value, or fails where the
expression has none. -/
theorem Lowers.outcome {e : Expr} {s s' : State} {t : LinearForm} (h : Lowers f e s t s') :
    ∀ {w : Assignment}, Ready f s w → Outcome f e s t s' w := by
  induction h with
  | @name n b s hb =>
      intro w hw
      refine .inl ⟨w, .refl hw, Assignment.covers_singleton (hw.isSome_of_lookup? hb), ?_⟩
      rw [Reference.eval, lookup_env, hb, LinearForm.value_single]
      rfl
  | int z s =>
      intro w hw
      refine .inl ⟨w, .refl hw, Assignment.covers_singleton hw.isSome_one, ?_⟩
      simp [Reference.eval, hw.residue_one]
  | bool b s =>
      intro w hw
      refine .inl ⟨w, .refl hw, Assignment.covers_singleton hw.isSome_one, ?_⟩
      cases b <;> simp [Reference.eval, hw.residue_one]
  | @operation op a l r s s₁ s₂ left right ha hl hr ihl ihr =>
      intro w hw
      have hs := hl.grows.trans hr.grows
      rcases ihl hw.alloc with ⟨w₁, hfill₁, hcov₁, heval₁⟩ | ⟨hfail, heval⟩
      · have henv := hfill₁.advances.env_eq hw.alloc hl.scope_eq
        rcases ihr hfill₁.ready with ⟨w₂, hfill₂, hcov₂, heval₂⟩ | ⟨hfail, heval⟩
        · have hle := hfill₂.advances.le hfill₁.ready
          rw [← hle.value_eq hcov₁] at heval₁
          rw [henv] at heval₂
          exact outcome_operation ha hw (hfill₁.trans hl.grows hr.grows hfill₂) hs
            (hle.covers hcov₁) hcov₂ heval₁ heval₂
        · rw [henv] at heval
          refine .inr ⟨?_, fails_eval_right heval⟩
          rw [replay_alloc,
            hfill₁.replay_trans hl.grows (hr.grows.trans (.define _ _ _))]
          exact fails_replay_trans hfail hr.grows (.define _ _ _)
      · refine .inr ⟨?_, heval.bind _⟩
        rw [replay_alloc]
        exact fails_replay_trans hfail hl.grows (hr.grows.trans (.define _ _ _))
  | @negation e s s₁ terms he ih =>
      intro w hw
      rcases ih hw.alloc with ⟨w₁, hfill, hcov, heval⟩ | ⟨hfail, heval⟩
      · refine .inl ⟨_, .linear hw hfill he.grows ?_ (hcov.negate f) ((hcov.negate f).merge f) ?_⟩
        · rw [LinearForm.value_negate]
          exact Reference.eval_neg heval
        · rw [LinearForm.value_merge]
      · refine .inr ⟨?_, heval.bind _⟩
        rw [replay_alloc]
        exact fails_replay_trans hfail he.grows (.define _ _ _)

end ArrowCircuit.Lowering
