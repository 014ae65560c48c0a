import ArrowCircuit.Proofs.Constraint.NormalForm
import ArrowCircuit.Proofs.Lowering.Steps

/-!
# The forms of lowered circuits

Every form that lowering puts into a constraint or a computation has been merged, and so is normal: it
names an index once, with a coefficient between one and the modulus.  As the other invariants of
lowering, this one is kept by every step and so by the lowering of a circuit (`isNormal_of_lower`).
-/

namespace ArrowCircuit.Lowering

variable {f : PrimeField}

/-! ## States -/

/-- All forms of the constraints and computations of a state are normal. -/
structure State.Normal (f : PrimeField) (s : State) : Prop where
  constraints : ∀ k ∈ s.constraints, AllNormal f k.forms
  computations : ∀ c ∈ s.computations, AllNormal f c.forms

namespace State.Normal

/-- What is added behind a state has to be normal itself. -/
theorem append {s s' : State} (h : s.Normal f) {ks : List Constraint} {cs : List Computation}
    (hconstraints : s'.constraints = s.constraints ++ ks) (hks : ∀ k ∈ ks, AllNormal f k.forms)
    (hcomputations : s'.computations = s.computations ++ cs) (hcs : ∀ c ∈ cs, AllNormal f c.forms) :
    s'.Normal f := by
  constructor
  · rw [hconstraints]
    exact List.forall_mem_append.mpr ⟨h.constraints, hks⟩
  · rw [hcomputations]
    exact List.forall_mem_append.mpr ⟨h.computations, hcs⟩

theorem define {s : State} (h : s.Normal f) {k : Constraint} (hk : AllNormal f k.forms)
    {c : Computation} (hc : AllNormal f c.forms) : (s.define k c).Normal f :=
  h.append rfl (List.forall_mem_singleton.mpr hk) rfl (List.forall_mem_singleton.mpr hc)

theorem alloc {s : State} (h : s.Normal f) : s.alloc.2.Normal f := ⟨h.constraints, h.computations⟩

theorem bindName {s : State} (h : s.Normal f) (name : String) (b : Binding) :
    (s.bindName name b).Normal f :=
  ⟨h.constraints, h.computations⟩

end State.Normal

/-! ## What is added -/

variable [NeZero f.modulus]

theorem allNormal_linearConstraint (terms : LinearForm) (target : Nat) :
    AllNormal f (linearConstraint f terms target).forms :=
  allNormal_map_merge f [terms, .one, .single target]

theorem allNormal_operationConstraint (left right : LinearForm) (target : Nat) (a : Arithmetic) :
    AllNormal f (operationConstraint f left right target a).forms := by
  cases a with
  | mul => exact allNormal_map_merge f [left.merge f, right.merge f, .single target]
  | div => exact allNormal_map_merge f [.single target, right.merge f, left.merge f]
  | add => exact allNormal_linearConstraint _ _
  | sub => exact allNormal_linearConstraint _ _

theorem allNormal_linear (terms : LinearForm) (target : Nat) :
    AllNormal f (Computation.linear target (terms.merge f)).forms :=
  allNormal_map_merge f [terms]

theorem allNormal_operationComputation (left right : LinearForm) (target : Nat) (a : Arithmetic) :
    AllNormal f (operationComputation f left right target a).forms := by
  cases a with
  | mul => exact allNormal_map_merge f [left, right]
  | div => exact allNormal_map_merge f [left, right]
  | add => exact allNormal_linear _ _
  | sub => exact allNormal_linear _ _

theorem allNormal_booleanConstraint (i : Nat) : AllNormal f (booleanConstraint f i).forms :=
  allNormal_map_merge f [.single i, .single i, .single i]

theorem allNormal_orderConstraints {settings : Settings} [NeZero settings.field.modulus]
    {left right : Nat} {offset : Int} {target : Nat} {k : Constraint}
    (h : k ∈ orderConstraints settings left right offset target) :
    AllNormal settings.field k.forms := by
  obtain rfl | ⟨i, -, rfl⟩ | rfl := mem_orderConstraints.mp h
  · exact allNormal_linearConstraint _ _
  · exact allNormal_booleanConstraint i
  · exact allNormal_linearConstraint _ _

theorem State.Normal.emit {s : State} (h : s.Normal f) (a b c : LinearForm) :
    (s.emit f a b c).Normal f :=
  h.append rfl (List.forall_mem_singleton.mpr (allNormal_map_merge f [a, b, c]))
    (List.append_nil _).symm fun _ hc => absurd hc List.not_mem_nil

/-- The computations of a comparison have no forms. -/
theorem State.Normal.order {settings : Settings} [NeZero settings.field.modulus] {s : State}
    (h : s.Normal settings.field) (left right : Nat) (offset : Int) :
    (s.order settings left right offset).Normal settings.field := by
  refine h.append rfl (fun k hk => allNormal_orderConstraints hk) rfl ?_
  intro c hc
  simp only [List.mem_cons, List.not_mem_nil, or_false] at hc
  rcases hc with rfl | rfl <;> exact fun _ ht => absurd ht List.not_mem_nil

/-! ## Steps -/

theorem Lowers.normal {e : Expr} {s s' : State} {t : LinearForm} (h : Lowers f e s t s')
    (hs : s.Normal f) : s'.Normal f := by
  induction h with
  | name _ => exact hs
  | int _ _ => exact hs
  | bool _ _ => exact hs
  | operation _ _ _ ihl ihr =>
      exact (ihr (ihl hs.alloc)).define (allNormal_operationConstraint _ _ _ _)
        (allNormal_operationComputation _ _ _ _)
  | negation _ ih =>
      exact (ih hs.alloc).define (allNormal_linearConstraint _ _) (allNormal_linear _ _)

theorem LowersAll.normal {es : List Expr} {s s' : State} {ts : List LinearForm}
    (h : LowersAll f es s ts s') (hs : s.Normal f) : s'.Normal f := by
  induction h with
  | nil _ => exact hs
  | cons h _ ih => exact ih (h.normal hs)

theorem Equates.normal {l r : Expr} {s s' : State} (h : Equates f l r s s') (hs : s.Normal f) :
    s'.Normal f := by
  cases h with
  | productLeft h | productRight h | sumLeft h | sumRight h | plain h => exact (h.normal hs).emit _ _ _

theorem Materializes.normal {e : Expr} {s s' : State} {i : Nat} (h : Materializes f e s i s')
    (hs : s.Normal f) : s'.Normal f := by
  cases h with
  | held h _ => exact h.normal hs
  | stored h =>
      exact (h.normal hs).alloc.define (allNormal_linearConstraint _ _) (allNormal_linear _ _)

theorem Assigns.normal {e : Expr} {s s' : State} (h : Assigns f e s s') (hs : s.Normal f) :
    s'.Normal f := by
  cases h with
  | operation h => exact h.normal hs
  | value h => exact (h.normal hs.alloc).define (allNormal_linearConstraint _ _) (allNormal_linear _ _)

/-! ## Circuits -/

section Circuits

variable {settings : Settings} [NeZero settings.field.modulus]

theorem LowersStatement.normal {statement : Statement} {s s' : State}
    (h : LowersStatement settings statement s s') (hs : s.Normal settings.field) :
    s'.Normal settings.field := by
  cases h with
  | equality h => exact h.normal hs
  | order _ ha hb => exact (hb.normal (ha.normal hs)).order _ _ _
  | truth _ h => exact (h.normal hs).emit _ _ _
  | declare _ h => exact (h.normal hs).bindName _ _
  | assign _ _ h => exact (h.normal hs).bindName _ _

theorem normal_of_lowerStatements {statements : List Statement} {s s' : State}
    (h : lowerStatements settings statements s = .ok s') (hs : s.Normal settings.field) :
    s'.Normal settings.field := by
  induction statements generalizing s with
  | nil =>
      cases h
      exact hs
  | cons statement rest ih =>
      obtain ⟨s₁, hstep, hrest⟩ := lowerStatements_cons h
      exact ih hrest (hstep.normal hs)

/-- **Forms of lowered circuits.** Lowering starts without constraints and computations, so that all forms
of a circuit's are normal. -/
theorem isNormal_of_lower {c : Circuit} {sys : ConstraintSystem} (h : c.lower settings = .ok sys) :
    (∀ k ∈ sys.constraints, AllNormal settings.field k.forms) ∧
      ∀ c ∈ sys.computations, AllNormal settings.field c.forms := by
  obtain ⟨s, hs, rfl⟩ := lower_eq_ok_iff.mp h
  have hstart : (paramState c).Normal settings.field := by
    rw [paramState_eq]
    exact ⟨fun _ hk => absurd hk List.not_mem_nil, fun _ hc => absurd hc List.not_mem_nil⟩
  have hnormal := normal_of_lowerStatements hs hstart
  exact ⟨hnormal.constraints, hnormal.computations⟩

/-- The constraints of a lowered circuit are merged. -/
theorem isMerged_of_lower {c : Circuit} {sys : ConstraintSystem} (h : c.lower settings = .ok sys) :
    ∀ k ∈ sys.constraints, k.IsMerged settings.field := by
  intro k hk
  have hforms := (isNormal_of_lower h).1 k hk
  simp only [AllNormal, Constraint.forms, List.forall_mem_cons] at hforms
  obtain ⟨ha, hb, hc, -⟩ := hforms
  exact ⟨ha.toIsMerged, hb.toIsMerged, hc.toIsMerged⟩

end Circuits

/-! ## Merging -/

/-- **Merging is a normal form.** Over any positive modulus: what merging leaves of a form has distinct
indices in the order of their first occurrences and coefficients between one and the modulus, evaluates as
the form does wherever that has all its values, leaves out exactly the indices whose coefficients add up to
a multiple of the modulus, and is not changed by merging again.  All forms in the constraints and
computations of a lowered circuit are of this kind. -/
theorem merge_normal_form (f : PrimeField) (hp : 0 < f.modulus) :
    (∀ terms : LinearForm,
      (terms.merge f).indices.Nodup ∧
      ((terms.merge f).indices.Pairwise fun i j => terms.indices.idxOf i < terms.indices.idxOf j) ∧
      (∀ t ∈ terms.merge f, 1 ≤ t.coefficient ∧ t.coefficient ≤ (f.modulus : Int) - 1) ∧
      (∀ w : Assignment, w.Covers terms →
        ∃ z, terms.eval f.modulus w = .ok z ∧ (terms.merge f).eval f.modulus w = .ok z) ∧
      (∀ i, i ∉ (terms.merge f).indices ↔ (f.modulus : Int) ∣ terms.coefficientAt i) ∧
      (terms.merge f).merge f = terms.merge f) ∧
    ∀ (bits : Nat) (c : Circuit) (sys : ConstraintSystem), c.lower ⟨f, bits⟩ = .ok sys →
      (∀ k ∈ sys.constraints, ∀ t ∈ k.forms, t.IsNormal f ∧ t.merge f = t) ∧
      ∀ c ∈ sys.computations, ∀ t ∈ c.forms, t.IsNormal f ∧ t.merge f = t := by
  have : NeZero f.modulus := ⟨by omega⟩
  constructor
  · intro terms
    have hnormal := LinearForm.isNormal_merge f terms
    refine ⟨hnormal.nodup, LinearForm.pairwise_idxOf_merge f terms, ?_, ?_, ?_, hnormal.merge_eq_self⟩
    · intro t ht
      exact hnormal.coefficient_bounds ht
    · intro w hw
      refine ⟨_, LinearForm.eval_of_covers hw, ?_⟩
      rw [LinearForm.eval_of_covers (hw.merge f), LinearForm.value_merge]
    · intro i
      rw [LinearForm.mem_indices_merge, not_not, Int.dvd_iff_emod_eq_zero]
      rfl
  · intro bits c sys h
    have : NeZero (Settings.mk f bits).field.modulus := ‹NeZero f.modulus›
    obtain ⟨hconstraints, hcomputations⟩ := isNormal_of_lower h
    constructor
    · intro k hk t ht
      have ht := hconstraints k hk t ht
      exact ⟨ht, ht.merge_eq_self⟩
    · intro c hc t ht
      have ht := hcomputations c hc t ht
      exact ⟨ht, ht.merge_eq_self⟩

/-- Modulo seven, the first two coefficients of an index cancel and the third brings it back to its first
place. -/
theorem merge_normal_form_seven :
    0 < (PrimeField.mk 7).modulus ∧
      LinearForm.merge ⟨7⟩ [⟨3, 2⟩, ⟨5, 1⟩, ⟨4, 2⟩, ⟨13, 2⟩, ⟨-7, 0⟩] = [⟨6, 2⟩, ⟨5, 1⟩] ∧
      LinearForm.merge ⟨7⟩ [⟨6, 2⟩, ⟨5, 1⟩] = [⟨6, 2⟩, ⟨5, 1⟩] ∧
      (7 : Int) ∣ LinearForm.coefficientAt [⟨3, 2⟩, ⟨5, 1⟩, ⟨4, 2⟩, ⟨13, 2⟩, ⟨-7, 0⟩] 0 := by
  obtain ⟨hmerge, -⟩ := merge_normal_form ⟨7⟩ (by decide)
  obtain ⟨-, -, -, -, habsent, hagain⟩ := hmerge [⟨3, 2⟩, ⟨5, 1⟩, ⟨4, 2⟩, ⟨13, 2⟩, ⟨-7, 0⟩]
  have hvalue : LinearForm.merge ⟨7⟩ [⟨3, 2⟩, ⟨5, 1⟩, ⟨4, 2⟩, ⟨13, 2⟩, ⟨-7, 0⟩] =
      [⟨6, 2⟩, ⟨5, 1⟩] := by decide
  rw [hvalue] at hagain habsent
  exact ⟨by decide, hvalue, hagain, (habsent 0).mp (by decide)⟩

end ArrowCircuit.Lowering
