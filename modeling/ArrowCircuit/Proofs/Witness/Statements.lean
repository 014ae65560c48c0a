import ArrowCircuit.Proofs.Witness.Bits

/-!
# Replaying the schedule of a program

For a statement, and then for a list of them: where the reference semantics runs and every demand of
order fits in the field, the assignment can be advanced, names get their reference values, and the
constraints are satisfied exactly when the other demands are met.  The schedule does this exactly
when the demands of order fit as numbers.
-/

namespace ArrowCircuit.Lowering

open Reference (Demand)

/-! ## Assertions and assignments -/

section Expressions

variable {f : PrimeField} [Fact f.modulus.Prime] {s s' : State} {w : Assignment}

theorem fails_eval_left {env : Reference.Env (ZMod f.modulus)} {op : BinaryOp} {l r : Expr}
    (h : Fails (Reference.eval env l)) : Fails (Reference.eval env (.binary op l r)) :=
  h.bind _

/-- Expressions lowered one after another are computed one after another. -/
theorem LowersAll.outcome {es : List Expr} {ts : List LinearForm} (h : LowersAll f es s ts s') :
    ∀ {w : Assignment}, Ready f s w →
      (∃ w', Fills f s s' w w' ∧ (∀ t ∈ ts, w'.Covers t) ∧
        List.Forall₂ (fun e t => Reference.eval (s.env (w.residue f.modulus)) e =
          .ok (t.value (w'.residue f.modulus))) es ts) ∨
      Fails (replay f s s' w) ∧
        ∃ e ∈ es, Fails (Reference.eval (s.env (w.residue f.modulus)) e) := by
  induction h with
  | nil s => exact fun hw => .inl ⟨_, .refl hw, by simp, .nil⟩
  | @cons e es s s₁ s' t ts h hs ih =>
      intro w hw
      rcases h.outcome hw with ⟨w₁, hfill, hcov, heval⟩ | ⟨hfail, heval⟩
      · have henv := hfill.advances.env_eq hw h.scope_eq
        have ih := ih hfill.ready
        rw [henv] at ih
        rcases ih with ⟨w', hfill', hcov', heval'⟩ | ⟨hfail, e', he', heval'⟩
        · have hle := hfill'.advances.le hfill.ready
          refine .inl ⟨w', hfill.trans h.grows hs.grows hfill', ?_, .cons ?_ heval'⟩
          · exact List.forall_mem_cons.mpr ⟨hle.covers hcov, hcov'⟩
          · rw [heval, hle.value_eq hcov]
        · refine .inr ⟨?_, e', List.mem_cons_of_mem e he', heval'⟩
          rw [hfill.replay_trans h.grows hs.grows]
          exact hfail
      · exact .inr ⟨fails_replay_trans hfail h.grows hs.grows, e, List.mem_cons_self, heval⟩

/-- An emitted constraint is satisfied when its equation holds. -/
theorem Fills.emit {s₁ : State} {w₁ : Assignment} (h : Fills f s s₁ w w₁) {a b c : LinearForm}
    (ha : w₁.Covers a) (hb : w₁.Covers b) (hc : w₁.Covers c) :
    Advances f s (s₁.emit f a b c) w w₁ ∧
      (Satisfied f (s₁.emit f a b c) w₁ ↔ Satisfied f s w ∧
        a.value (w₁.residue f.modulus) * b.value (w₁.residue f.modulus) =
          c.value (w₁.residue f.modulus)) := by
  have hcov : w₁.CoversConstraint ⟨a.merge f, b.merge f, c.merge f⟩ :=
    ⟨ha.merge f, hb.merge f, hc.merge f⟩
  have hready : Ready f (s₁.emit f a b c) w₁ := h.ready.snoc hcov rfl rfl rfl
  refine ⟨⟨hready, h.advances.agree, h.advances.filled⟩, ?_⟩
  rw [h.ready.satisfied_iff_of_le (.refl w₁) (show _ = _ ++ [_] from rfl), h.satisfied]
  simp only [List.mem_singleton, forall_eq, Constraint.Holds, LinearForm.value_merge]

/-- What the replay of an equality comes to. -/
def EqualityOutcome (f : PrimeField) [Fact f.modulus.Prime] (l r : Expr) (s s' : State)
    (w : Assignment) : Prop :=
  (∃ w' x y, replay f s s' w = .ok w' ∧ Advances f s s' w w' ∧
    Reference.eval (s.env (w.residue f.modulus)) l = .ok x ∧
    Reference.eval (s.env (w.residue f.modulus)) r = .ok y ∧
    (Satisfied f s' w' ↔ Satisfied f s w ∧ x = y)) ∨
  Fails (replay f s s' w) ∧
    (Fails (Reference.eval (s.env (w.residue f.modulus)) l) ∨
      Fails (Reference.eval (s.env (w.residue f.modulus)) r))

theorem EqualityOutcome.symm {l r : Expr} (h : EqualityOutcome f l r s s' w) :
    EqualityOutcome f r l s s' w := by
  rcases h with ⟨w', x, y, hreplay, hadv, hl, hr, hsat⟩ | ⟨hfail, heval⟩
  · exact .inl ⟨w', y, x, hreplay, hadv, hr, hl, by rw [hsat, eq_comm]⟩
  · exact .inr ⟨hfail, heval.symm⟩

/-- An equality of an operation with a value, its operands going straight into the constraint. -/
theorem equalityOutcome_of_lowersAll {op : BinaryOp} {l r e : Expr} {s₁ : State} {a b c : LinearForm}
    (h : LowersAll f [l, r, e] s [a, b, c] s₁) (hw : Ready f s w) {u v : LinearForm}
    (hcov : ∀ w₁ : Assignment, w₁.Covers a → w₁.Covers b → (w₁.get? oneIndex).isSome →
      w₁.Covers u ∧ w₁.Covers v)
    (happly : ∀ v₁ : Nat → ZMod f.modulus, v₁ oneIndex = 1 →
      Reference.apply op (a.value v₁) (b.value v₁) = .ok (u.value v₁ * v.value v₁)) :
    EqualityOutcome f (.binary op l r) e s (s₁.emit f u v c) w := by
  rcases h.outcome hw with ⟨w₁, hfill, hcovs, hevals⟩ | ⟨hfail, e', he', heval⟩
  · obtain ⟨hl, hr, he⟩ := by simpa using hevals
    obtain ⟨ha, hb, hc⟩ := by simpa using hcovs
    obtain ⟨hu, hv⟩ := hcov w₁ ha hb hfill.ready.isSome_one
    obtain ⟨hadv, hsat⟩ := hfill.emit hu hv hc
    have heval : Reference.eval (s.env (w.residue f.modulus)) (.binary op l r) = _ :=
      Reference.eval_binary hl hr
    rw [happly _ hfill.ready.residue_one] at heval
    exact .inl ⟨w₁, _, _, hfill.replayed, hadv, heval, he, hsat⟩
  · refine .inr ⟨hfail, ?_⟩
    have he' : e' = l ∨ e' = r ∨ e' = e := by simpa using he'
    rcases he' with rfl | rfl | rfl
    · exact .inl (fails_eval_left heval)
    · exact .inl (fails_eval_right heval)
    · exact .inr heval

theorem Equates.outcome {l r : Expr} (h : Equates f l r s s') (hw : Ready f s w) :
    EqualityOutcome f l r s s' w := by
  have hmul : ∀ {a b : LinearForm} (v : Nat → ZMod f.modulus), v oneIndex = 1 →
      Reference.apply .mul (a.value v) (b.value v) = .ok (a.value v * b.value v) :=
    fun _ _ => rfl
  have hsum : ∀ {a b : LinearForm} (isSum : Bool) (v : Nat → ZMod f.modulus), v oneIndex = 1 →
      Reference.apply (sumOp isSum) (a.value v) (b.value v) =
        .ok ((combine f isSum a b).value v * LinearForm.one.value v) := by
    intro a b isSum v hone
    rw [apply_sumOp, value_combine, LinearForm.value_one v hone, mul_one]
  cases h with
  | productLeft h =>
      exact equalityOutcome_of_lowersAll h hw (fun _ ha hb _ => ⟨ha, hb⟩) hmul
  | productRight h =>
      exact (equalityOutcome_of_lowersAll h hw (fun _ ha hb _ => ⟨ha, hb⟩) hmul).symm
  | sumLeft h =>
      exact equalityOutcome_of_lowersAll h hw (fun _ ha hb hone =>
        ⟨Covers.combine ha hb _, Assignment.covers_singleton hone⟩) (hsum _)
  | sumRight h =>
      exact (equalityOutcome_of_lowersAll h hw (fun _ ha hb hone =>
        ⟨Covers.combine ha hb _, Assignment.covers_singleton hone⟩) (hsum _)).symm
  | plain h =>
      rcases h.outcome hw with ⟨w₁, hfill, hcovs, hevals⟩ | ⟨hfail, e', he', heval⟩
      · obtain ⟨hl, hr⟩ := by simpa using hevals
        obtain ⟨ha, hb⟩ := by simpa using hcovs
        obtain ⟨hadv, hsat⟩ := hfill.emit
          (Assignment.covers_append.mpr ⟨ha, hb.negate f⟩)
          hfill.ready.covers_one (Assignment.covers_nil w₁)
        refine .inl ⟨w₁, _, _, hfill.replayed, hadv, hl, hr, hsat.trans ?_⟩
        rw [LinearForm.value_append, LinearForm.value_negate, LinearForm.value_nil,
          LinearForm.value_one _ hfill.ready.residue_one, mul_one, add_neg_eq_zero]
      · refine .inr ⟨hfail, ?_⟩
        have he' : e' = l ∨ e' = r := by simpa using he'
        rcases he' with rfl | rfl
        · exact .inl heval
        · exact .inr heval

/-- The index that materializes an expression is computed. -/
theorem Materializes.outcome {e : Expr} {i : Nat} (h : Materializes f e s i s')
    (hw : Ready f s w) : Outcome f e s (.single i) s' w := by
  cases h with
  | held h ht =>
      rcases h.outcome hw with ⟨w₁, hfill, hcov, heval⟩ | hfail
      · refine .inl ⟨w₁, hfill, ?_, ?_⟩
        · rw [← ht]
          exact hcov.merge f
        · rw [← ht, LinearForm.value_merge]
          exact heval
      · exact .inr hfail
  | @stored s₁ t h =>
      have hstore : Grows s₁ (s₁.alloc.2.define (linearConstraint f (t.merge f) s₁.next)
          (.linear s₁.next (t.merge f))) := (Grows.alloc _).trans (.define _ _ _)
      rcases h.outcome hw with ⟨w₁, hfill, hcov, heval⟩ | ⟨hfail, heval⟩
      · rw [← hfill.advances.env_eq hw h.scope_eq, ← LinearForm.value_merge] at heval
        have hlin := Computes.linear hfill.ready (.refl hfill.ready.alloc) (.refl _) heval
          (hcov.merge f) (hcov.merge f) rfl
        exact .inl ⟨_, hlin.trans hw hfill h.grows h.scope_eq hstore⟩
      · exact .inr ⟨fails_replay_trans hfail h.grows hstore, heval⟩

/-- The index of an assignment is computed. -/
theorem Assigns.outcome {e : Expr} (h : Assigns f e s s') (hw : Ready f s w) :
    Outcome f e s (.single s.next) s' w := by
  cases h with
  | operation h => exact h.outcome hw
  | value h =>
      rcases h.outcome hw.alloc with ⟨w₁, hfill, hcov, heval⟩ | ⟨hfail, heval⟩
      · exact .inl ⟨_, .linear hw hfill h.grows heval hcov (hcov.merge f) (LinearForm.value_merge ..)⟩
      · refine .inr ⟨?_, heval⟩
        rw [replay_alloc]
        exact fails_replay_trans hfail h.grows (.define _ _ _)

end Expressions

/-! ## Demands -/

section Demands

variable {p : Nat}

theorem gap_eq (x y : ZMod p) (strict : Bool) :
    Demand.gap x y strict = x.val - y.val + orderOffset strict := by
  cases strict
  · rfl
  · exact Int.sub_eq_add_neg

theorem orderOffset_nonpos (strict : Bool) : orderOffset strict ≤ 0 := by
  cases strict <;> decide

variable {F : Type} [Field F] [DecidableEq F] {env : Reference.Env F}

theorem fails_demand_binary {op : BinaryOp} {l r : Expr}
    (h : Fails (Reference.eval env l) ∨ Fails (Reference.eval env r)) :
    Fails (Reference.demand env (.binary op l r)) := by
  rw [Reference.demand]
  cases hl : Reference.eval env l with
  | error e => exact ⟨e, rfl⟩
  | ok x =>
      rcases h with h | h
      · exact absurd hl (h.ne_ok x)
      · exact h.bind _

theorem fails_demand_order {op : BinaryOp} {l r a b : Expr} {strict : Bool}
    (hop : orderSides op l r = some (a, b, strict))
    (h : Fails (Reference.eval env a) ∨ Fails (Reference.eval env b)) :
    Fails (Reference.demand env (.binary op l r)) := by
  cases op with
  | ge | gt =>
      cases hop
      exact fails_demand_binary h
  | le | lt =>
      cases hop
      exact fails_demand_binary h.symm
  | _ => cases hop

theorem fails_demand_truth {f : PrimeField} {e : Expr} {s s' : State} {t : LinearForm}
    (he : ∀ op l r, e ≠ .binary op l r) (h : Lowers f e s t s')
    (hfail : Fails (Reference.eval env e)) : Fails (Reference.demand env e) := by
  cases h with
  | operation _ _ _ => exact absurd rfl (he _ _ _)
  | _ => exact hfail.bind _

end Demands

/-! ## Statements -/

section Statements

variable {settings : Settings} {s s' : State} {w : Assignment}

/-- How an assignment goes on where the semantics runs, to these values and demands. -/
structure Follows (settings : Settings) (s s' : State) (w : Assignment)
    (env : Reference.Env (ZMod settings.field.modulus))
    (ds : List (Demand (ZMod settings.field.modulus))) : Prop where
  /-- In the field it can be advanced, by the schedule if that does not stop. -/
  advance : (∀ d ∈ ds, d.FitsField settings.bits) →
    ∃ w', Advances settings.field s s' w w' ∧
      s'.env (w'.residue settings.field.modulus) = env ∧
      (Satisfied settings.field s' w' ↔ Satisfied settings.field s w ∧ ∀ d ∈ ds, d.Met) ∧
      ((∀ d ∈ ds, d.Fits settings.bits) → replay settings.field s s' w = .ok w')
  /-- The schedule stops at an order that does not fit as a number. -/
  stop : (¬ ∀ d ∈ ds, d.Fits settings.bits) → Fails (replay settings.field s s' w)

/-- Without a demand of order the schedule does not stop. -/
theorem Follows.of_replay {w' : Assignment} {env : Reference.Env (ZMod settings.field.modulus)}
    {ds : List (Demand (ZMod settings.field.modulus))} (hds : ∀ d ∈ ds, d.Fits settings.bits)
    (hreplay : replay settings.field s s' w = .ok w') (hadv : Advances settings.field s s' w w')
    (henv : s'.env (w'.residue settings.field.modulus) = env)
    (hsat : Satisfied settings.field s' w' ↔ Satisfied settings.field s w ∧ ∀ d ∈ ds, d.Met) :
    Follows settings s s' w env ds :=
  ⟨fun _ => ⟨w', hadv, henv, hsat, fun _ => hreplay⟩, fun h => absurd hds h⟩

/-- What becomes of an assignment: it follows the semantics, or the schedule and the semantics fail
both. -/
def Pursues (settings : Settings) (s s' : State) (w : Assignment)
    (outcome : Except Reference.Fault (Reference.Env (ZMod settings.field.modulus) ×
      List (Demand (ZMod settings.field.modulus)))) : Prop :=
  (∃ env ds, outcome = .ok (env, ds) ∧ Follows settings s s' w env ds) ∨
    Fails (replay settings.field s s' w) ∧ Fails outcome

/-- Where the semantics runs, the assignment follows it. -/
theorem Pursues.follows {env : Reference.Env (ZMod settings.field.modulus)}
    {ds : List (Demand (ZMod settings.field.modulus))}
    (h : Pursues settings s s' w (.ok (env, ds))) : Follows settings s s' w env ds := by
  rcases h with ⟨env', ds', houtcome, hfollow⟩ | ⟨_, hfail⟩
  · cases houtcome
    exact hfollow
  · exact absurd rfl (hfail.ne_ok (env, ds))

variable [Fact settings.field.modulus.Prime]

/-- Where the schedule is carried out, the semantics runs and the two agree. -/
theorem Pursues.of_replay {w' : Assignment}
    {outcome : Except Reference.Fault (Reference.Env (ZMod settings.field.modulus) ×
      List (Demand (ZMod settings.field.modulus)))}
    (h : Pursues settings s s' w outcome) (hreplay : replay settings.field s s' w = .ok w') :
    Advances settings.field s s' w w' ∧
      ∃ ds, outcome = .ok (s'.env (w'.residue settings.field.modulus), ds) ∧
        (∀ d ∈ ds, d.Fits settings.bits) ∧
        (Satisfied settings.field s' w' ↔ Satisfied settings.field s w ∧ ∀ d ∈ ds, d.Met) := by
  rcases h with ⟨env, ds, houtcome, hfollow⟩ | ⟨hfail, _⟩
  · have hds : ∀ d ∈ ds, d.Fits settings.bits := by
      by_contra hds
      exact (hfollow.stop hds).ne_ok w' hreplay
    obtain ⟨w₁, hadv, henv, hsat, hreplay₁⟩ :=
      hfollow.advance fun d hd => Demand.fitsField_iff.mpr (.inl (hds d hd))
    rw [hreplay₁ hds, Except.ok.injEq] at hreplay
    subst hreplay
    exact ⟨hadv, ds, by rw [houtcome, henv], hds, hsat⟩
  · exact absurd hreplay (hfail.ne_ok w')

/-- Where the semantics runs and every order fits as a number, the schedule is carried out. -/
theorem Pursues.exists_replay {env : Reference.Env (ZMod settings.field.modulus)}
    {ds : List (Demand (ZMod settings.field.modulus))}
    (h : Pursues settings s s' w (.ok (env, ds))) (hds : ∀ d ∈ ds, d.Fits settings.bits) :
    ∃ w', replay settings.field s s' w = .ok w' := by
  obtain ⟨w', _, _, _, hreplay⟩ :=
    h.follows.advance fun d hd => Demand.fitsField_iff.mpr (.inl (hds d hd))
  exact ⟨w', hreplay hds⟩

theorem Equates.pursues {l r : Expr} {m : Option Text} (h : Equates settings.field l r s s')
    (hw : Ready settings.field s w) :
    Pursues settings s s' w (Reference.step (s.env (w.residue settings.field.modulus))
      (.assert (.binary .eq l r) m)) := by
  rcases h.outcome hw with ⟨w', x, y, hreplay, hadv, hl, hr, hsat⟩ | ⟨hfail, heval⟩
  · have hd : Reference.demand (s.env (w.residue settings.field.modulus)) (.binary .eq l r) =
        .ok (.equal x y) := by
      simp only [Reference.demand, hl, hr, bind, Except.bind]
    refine .inl ⟨_, _, Reference.step_assert hd,
      .of_replay ?_ hreplay hadv (hadv.env_eq hw h.scope_eq) ?_⟩
    · simp [Demand.Fits]
    · simpa [Demand.Met] using hsat
  · exact .inr ⟨hfail, (fails_demand_binary heval).bind _⟩

theorem pursues_truth {e : Expr} {m : Option Text} {s₁ : State} {t : LinearForm}
    (he : ∀ op l r, e ≠ .binary op l r) (h : Lowers settings.field e s t s₁)
    (hw : Ready settings.field s w) :
    Pursues settings s (s₁.emit settings.field t .one .one) w
      (Reference.step (s.env (w.residue settings.field.modulus)) (.assert e m)) := by
  rcases h.outcome hw with ⟨w₁, hfill, hcov, heval⟩ | ⟨hfail, heval⟩
  · obtain ⟨hadv, hsat⟩ := hfill.emit hcov hfill.ready.covers_one hfill.ready.covers_one
    rw [LinearForm.value_one _ hfill.ready.residue_one, mul_one] at hsat
    refine .inl ⟨_, _, Reference.step_assert (demand_truth he h heval),
      .of_replay ?_ hfill.replayed hadv (hadv.env_eq hw h.scope_eq) ?_⟩
    · simp [Demand.Fits]
    · simpa [Demand.Met] using hsat
  · exact .inr ⟨hfail, (fails_demand_truth he h heval).bind _⟩

/-- A statement that binds a name. -/
theorem Assigns.pursues {statement : Statement} {n : String} {e : Expr} {isMutable : Bool}
    (h : Assigns settings.field e s s') (hw : Ready settings.field s w)
    (hstep : ∀ {x}, Reference.eval (s.env (w.residue settings.field.modulus)) e = .ok x →
      Reference.step (s.env (w.residue settings.field.modulus)) statement =
        .ok ((n, x) :: s.env (w.residue settings.field.modulus), []))
    (hfails : Fails (Reference.eval (s.env (w.residue settings.field.modulus)) e) →
      Fails (Reference.step (s.env (w.residue settings.field.modulus)) statement)) :
    Pursues settings s (s'.bindName n ⟨s.next, isMutable⟩) w
      (Reference.step (s.env (w.residue settings.field.modulus)) statement) := by
  rcases h.outcome hw with ⟨w₁, hfill, hcov, heval⟩ | ⟨hfail, heval⟩
  · have hsat : Satisfied settings.field (s'.bindName n ⟨s.next, isMutable⟩) w₁ ↔
        Satisfied settings.field s w := hfill.satisfied
    have hadv : Advances settings.field s (s'.bindName n ⟨s.next, isMutable⟩) w w₁ := by
      refine ⟨⟨hfill.ready.one, hfill.ready.canonical, hfill.ready.fresh, ?_,
        hfill.ready.covered⟩, hfill.advances.agree, hfill.advances.filled⟩
      exact List.forall_mem_cons.mpr ⟨(Assignment.covers_cons.mp hcov).1, hfill.ready.bound⟩
    refine .inl ⟨_, _, hstep heval, .of_replay (by simp) hfill.replayed hadv ?_ ?_⟩
    · rw [env_bindName, hfill.advances.env_eq hw h.scope_eq, LinearForm.value_single]
    · simpa using hsat
  · exact .inr ⟨hfail, hfails heval⟩

/-- A comparison of two materialized sides. -/
theorem pursues_order {op : BinaryOp} {l r a b : Expr} {strict : Bool} {m : Option Text}
    {s₁ s₂ : State} {left right : Nat} (hop : orderSides op l r = some (a, b, strict))
    (ha : Materializes settings.field a s left s₁) (hb : Materializes settings.field b s₁ right s₂)
    (hw : Ready settings.field s w) :
    Pursues settings s (s₂.order settings left right (orderOffset strict)) w
      (Reference.step (s.env (w.residue settings.field.modulus)) (.assert (.binary op l r) m)) := by
  have hgrows := ha.grows.trans hb.grows
  rcases ha.outcome hw with ⟨w₁, hfill₁, hcov₁, heval₁⟩ | ⟨hfail, heval⟩
  · have henv := hfill₁.advances.env_eq hw ha.scope_eq
    rcases hb.outcome hfill₁.ready with ⟨w₂, hfill₂, hcov₂, heval₂⟩ | ⟨hfail, heval⟩
    · have hfill := hfill₁.trans ha.grows hb.grows hfill₂
      have hle := hfill₂.advances.le hfill₁.ready
      have hl := hle.isSome (Assignment.covers_cons.mp hcov₁).1
      have hr := (Assignment.covers_cons.mp hcov₂).1
      rw [← hle.value_eq hcov₁, LinearForm.value_single] at heval₁
      rw [henv, LinearForm.value_single] at heval₂
      have hgetl := hfill.ready.get?_eq hl
      have hgetr := hfill.ready.get?_eq hr
      have horder : Grows s₂ (s₂.order settings left right (orderOffset strict)) := .order _ _ _ _
      have hreplay := hfill.replay_trans hgrows horder
      refine .inl ⟨_, _, Reference.step_assert (demand_order hop heval₁ heval₂), ?_, ?_⟩
      · intro hfits
        have hd := hfits _ List.mem_cons_self
        rw [Demand.FitsField, ← sub_add_orderOffset] at hd
        obtain ⟨hadv, hsat⟩ := advances_order hfill.ready hl hr rfl hd
        have hadv' := hfill.advances.trans hgrows.next_le hadv
        refine ⟨_, hadv', hadv'.env_eq hw (hb.scope_eq.trans ha.scope_eq), ?_, ?_⟩
        · rw [hsat, hfill.satisfied]
          simp [Demand.Met]
        · intro hds
          have hgap := hds _ List.mem_cons_self
          rw [Demand.Fits, gap_eq] at hgap
          rw [hreplay]
          exact replay_order hgetl hgetr (orderOffset_nonpos strict) hgap.1 hgap.2
      · intro hds
        rw [hreplay]
        refine fails_replay_order hgetl hgetr (orderOffset_nonpos strict) fun hgap => hds ?_
        intro d hd
        rw [List.mem_singleton.mp hd, Demand.Fits, gap_eq]
        exact hgap
    · rw [henv] at heval
      refine .inr ⟨?_, (fails_demand_order hop (.inr heval)).bind _⟩
      rw [hfill₁.replay_trans ha.grows (hb.grows.trans (.order _ _ _ _))]
      exact fails_replay_trans hfail hb.grows (.order _ _ _ _)
  · refine .inr ⟨?_, (fails_demand_order hop (.inl heval)).bind _⟩
    exact fails_replay_trans hfail ha.grows (hb.grows.trans (.order _ _ _ _))

/-- **Statements.** The assignment follows a statement, or both fail. -/
theorem LowersStatement.pursues {statement : Statement}
    (h : LowersStatement settings statement s s') (hw : Ready settings.field s w) :
    Pursues settings s s' w
      (Reference.step (s.env (w.residue settings.field.modulus)) statement) := by
  cases h with
  | equality h => exact h.pursues hw
  | order hop ha hb => exact pursues_order hop ha hb hw
  | truth he h => exact pursues_truth he h hw
  | declare _ h => exact h.pursues hw Reference.step_declare fun hfail => hfail.bind _
  | assign _ _ h => exact h.pursues hw Reference.step_assign fun hfail => hfail.bind _

/-- An assignment that followed a statement follows what comes behind. -/
theorem Follows.append {s₁ : State} {w₁ : Assignment} (hs : Grows s s₁) (hs' : Grows s₁ s')
    {env env' : Reference.Env (ZMod settings.field.modulus)}
    {ds ds' : List (Demand (ZMod settings.field.modulus))} (h : Follows settings s s₁ w env ds)
    (hadv : Advances settings.field s s₁ w w₁)
    (hsat : Satisfied settings.field s₁ w₁ ↔ Satisfied settings.field s w ∧ ∀ d ∈ ds, d.Met)
    (hreplay : (∀ d ∈ ds, d.Fits settings.bits) → replay settings.field s s₁ w = .ok w₁)
    (h' : Follows settings s₁ s' w₁ env' ds') : Follows settings s s' w env' (ds ++ ds') := by
  have hreplay' : (∀ d ∈ ds, d.Fits settings.bits) →
      replay settings.field s s' w = replay settings.field s₁ s' w₁ := by
    intro hds
    rw [replay_trans hs hs', hreplay hds]
    rfl
  constructor
  · intro hfits
    obtain ⟨_, hfits'⟩ := List.forall_mem_append.mp hfits
    obtain ⟨w', hadv', henv', hsat', hr'⟩ := h'.advance hfits'
    refine ⟨w', hadv.trans hs.next_le hadv', henv', ?_, ?_⟩
    · rw [hsat', hsat, List.forall_mem_append, and_assoc]
    · intro hds
      obtain ⟨hds, hds'⟩ := List.forall_mem_append.mp hds
      rw [hreplay' hds, hr' hds']
  · intro hds
    by_cases hfirst : ∀ d ∈ ds, d.Fits settings.bits
    · rw [hreplay' hfirst]
      exact h'.stop fun hds' => hds (List.forall_mem_append.mpr ⟨hfirst, hds'⟩)
    · exact fails_replay_trans (h.stop hfirst) hs hs'

/-- **Programs.** The assignment follows a list of statements, or both fail.  Once an order does not
fit in the field the assignment cannot go on, whatever the semantics does later. -/
theorem pursues_of_lowerStatements {statements : List Statement}
    (h : lowerStatements settings statements s = .ok s') (hw : Ready settings.field s w) :
    Pursues settings s s' w
      (Reference.run statements (s.env (w.residue settings.field.modulus))) := by
  induction statements generalizing s w with
  | nil =>
      cases h
      exact .inl ⟨_, [], rfl, .of_replay (by simp) (replay_of_eq rfl w) (.refl hw) rfl (by simp)⟩
  | cons statement rest ih =>
      obtain ⟨s₁, hstep, hrest⟩ := lowerStatements_cons h
      have hs := hstep.grows
      have hs' := grows_of_lowerStatements hrest
      rcases hstep.pursues hw with ⟨env, ds, hrun, hfollow⟩ | ⟨hfail, hrun⟩
      · by_cases hfits : ∀ d ∈ ds, d.FitsField settings.bits
        · obtain ⟨w₁, hadv, henv, hsat, hreplay⟩ := hfollow.advance hfits
          have ih := ih hrest hadv.ready
          rw [henv] at ih
          rcases ih with ⟨env', ds', hrun', hfollow'⟩ | ⟨hfail, hrun'⟩
          · exact .inl ⟨env', ds ++ ds', Reference.run_cons hrun hrun',
              hfollow.append hs hs' hadv hsat hreplay hfollow'⟩
          · refine .inr ⟨?_, ?_⟩
            · by_cases hds : ∀ d ∈ ds, d.Fits settings.bits
              · rw [replay_trans hs hs', hreplay hds]
                exact hfail
              · exact fails_replay_trans (hfollow.stop hds) hs hs'
            · rw [Reference.run, hrun]
              exact hrun'.bind _
        · have hfail := hfollow.stop fun hds => hfits fun d hd => Demand.fitsField_iff.mpr (.inl (hds d hd))
          have hfail' := fails_replay_trans hfail hs hs'
          cases hrun' : Reference.run rest env with
          | ok out =>
              obtain ⟨env', ds'⟩ := out
              refine .inl ⟨env', ds ++ ds', Reference.run_cons hrun hrun', ?_, fun _ => hfail'⟩
              exact fun hall => absurd (List.forall_mem_append.mp hall).1 hfits
          | error e =>
              refine .inr ⟨hfail', e, ?_⟩
              rw [Reference.run, hrun]
              simp only [bind, Except.bind, hrun']
      · exact .inr ⟨fails_replay_trans hfail hs hs', hrun.bind _⟩

end Statements

end ArrowCircuit.Lowering
