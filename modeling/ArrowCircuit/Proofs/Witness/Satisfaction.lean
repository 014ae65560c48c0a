import ArrowCircuit.Proofs.Constraint.Check
import ArrowCircuit.Proofs.Curve.BaseField
import ArrowCircuit.Proofs.Lowering.Coefficients
import ArrowCircuit.Proofs.Witness.Layout

/-!
# The fields of the dense check

The dense check is given the modulus of a field, but the entries of its rows are reduced modulo the
scalar modulus.  A lowered constraint names each index once, so that what the rows show of it is the
constraint with its coefficients reduced modulo the scalar modulus (`reports_reduceBy_of_lower`).
Coefficients of a field that is not greater are not changed by that.  In a greater field `-1` is: the
check then refuses the witness of an equality that holds, and is right for no such field
(`dense_check_right_iff_modulus_le`).
-/

namespace ArrowCircuit

/-! ## What the rows show -/

/-- The form with its coefficients reduced in a field. -/
def LinearForm.reduceBy (f : PrimeField) (terms : LinearForm) : LinearForm :=
  terms.map fun t => ⟨f.reduce t.coefficient, t.index⟩

/-- The constraint with its coefficients reduced in a field. -/
def Constraint.reduceBy (f : PrimeField) (c : Constraint) : Constraint :=
  ⟨c.a.reduceBy f, c.b.reduceBy f, c.c.reduceBy f⟩

namespace LinearForm

variable {f : PrimeField} {n : Nat} {terms : LinearForm}

theorem Below.reduceBy (h : terms.Below n) : (terms.reduceBy f).Below n := by
  intro t ht
  obtain ⟨u, hu, rfl⟩ := List.mem_map.mp ht
  exact h u hu

/-- Reduced coefficients of one field are reduced in a greater one. -/
theorem IsMerged.reduceBy_eq (h : terms.IsMerged f) {g : PrimeField} (hle : f.modulus ≤ g.modulus) :
    terms.reduceBy g = terms := by
  refine (List.map_congr_left fun t ht => ?_).trans (List.map_id terms)
  obtain ⟨hnonneg, hlt⟩ := h.canonical t ht
  rw [g.reduce_of_canonical ⟨hnonneg, by omega⟩]
  rfl

/-- Terms of distinct indices are written to entries that are still zero, so that each entry is a
single coefficient, reduced once. -/
theorem isDenseModulo_foldl_modify {p : Nat} (hbelow : terms.Below n)
    (hnodup : (terms.map (·.index)).Nodup) {done : LinearForm} {row : List Int}
    (hrow : IsDenseModulo p n done row) (hfresh : ∀ t ∈ terms, row.getD t.index 0 = 0) :
    IsDenseModulo p n (done ++ terms.reduceBy .scalar) (terms.foldl (fun row t =>
      row.modify t.index fun x => (x + t.coefficient) % (scalarModulus : Int)) row) := by
  induction terms generalizing done row with
  | nil =>
      rw [reduceBy, List.map_nil, List.append_nil]
      exact hrow
  | cons t terms ih =>
      obtain ⟨hlt, hbelow⟩ := List.forall_mem_cons.mp hbelow
      obtain ⟨hzero, hfresh⟩ := List.forall_mem_cons.mp hfresh
      obtain ⟨hnotMem, hnodup⟩ := List.nodup_cons.mp hnodup
      rw [reduceBy, List.map_cons, List.append_cons]
      refine ih hbelow hnodup ⟨?_, fun ws hws => ?_⟩ fun u hu => ?_
      · rw [List.length_modify, hrow.length_eq]
      · -- the entry was zero, so the inner product grows by the reduced coefficient times the value
        rw [dot_modify _ (hrow.length_eq.trans hws.symm) (by rwa [hrow.length_eq]), hzero, sub_zero,
          zero_add, Int.cast_add, hrow.intCast_dot_eq ws hws, Int.cast_mul, value_append, value_cons,
          value_nil, add_zero]
        rfl
      · -- no later term has this index
        have hne : t.index ≠ u.index := fun heq => hnotMem (List.mem_map.mpr ⟨u, hu, heq.symm⟩)
        have hget := hfresh u hu
        rw [List.getD_eq_getElem?_getD] at hget ⊢
        rwa [List.getElem?_modify_ne _ _ hne]

/-- **One form.** The dense row of a merged form shows its coefficients modulo the scalar modulus. -/
theorem IsMerged.renders (h : terms.IsMerged f) (hbelow : terms.Below n) (p : Nat) :
    terms.Renders p n (terms.reduceBy .scalar) := by
  have hempty : IsDenseModulo p n [] (List.replicate n 0) :=
    ⟨List.length_replicate, fun ws _ => by rw [dot_replicate_zero, value_nil, Int.cast_zero]⟩
  refine ⟨_, denseRow_of_below hbelow, ?_⟩
  exact isDenseModulo_foldl_modify hbelow h.nodup hempty fun t ht => List.getD_replicate _ (hbelow t ht)

end LinearForm

/-! ## Lowered circuits -/

section Lowered

open Lowering

variable {settings : Settings} [NeZero settings.field.modulus] {c : Circuit} {sys : ConstraintSystem}
  {w : Assignment}

/-- **Lowered circuits.** Over any field the check reports the places at which the constraints fail
when their coefficients have been reduced modulo the scalar modulus. -/
theorem reports_reduceBy_of_lower (h : c.lower settings = .ok sys)
    (hfull : ∀ i < sys.numWitnesses, (w.get? i).isSome) :
    sys.Reports settings.field.modulus w (Constraint.reduceBy .scalar) := by
  obtain ⟨s, hs, rfl⟩ := lower_eq_ok_iff.mp h
  have hmerged := isMerged_of_lower h
  have hbelow := (laidOut_system hs).constraints
  refine ConstraintSystem.reports_of_renders (fun k hk => ?_) (fun k hk => ?_) hfull
  · obtain ⟨ha, hb, hc⟩ := hbelow k hk
    exact ⟨(hmerged k hk).a.renders ha _, (hmerged k hk).b.renders hb _, (hmerged k hk).c.renders hc _⟩
  · obtain ⟨ha, hb, hc⟩ := hbelow k hk
    exact ⟨LinearForm.Below.reduceBy ha, LinearForm.Below.reduceBy hb, LinearForm.Below.reduceBy hc⟩

/-- Over a field that is not greater than the scalar field the constraints are shown as they are. -/
theorem reports_of_lower (hle : settings.field.modulus ≤ scalarModulus)
    (h : c.lower settings = .ok sys) (hfull : ∀ i < sys.numWitnesses, (w.get? i).isSome) :
    sys.Reports settings.field.modulus w id := by
  have hle : settings.field.modulus ≤ PrimeField.scalar.modulus := hle
  refine (reports_reduceBy_of_lower h hfull).congr fun k hk => ?_
  obtain ⟨ha, hb, hc⟩ := isMerged_of_lower h k hk
  rw [Constraint.reduceBy, ha.reduceBy_eq hle, hb.reduceBy_eq hle, hc.reduceBy_eq hle]
  rfl

end Lowered

/-! ## Honest witnesses -/

namespace Witness

open Lowering

/-- Values are read in one way. -/
theorem Reads.eq {f : PrimeField} {values : List Value} {xs ys : List (ZMod f.modulus)}
    (hx : Reads f values xs) (hy : Reads f values ys) : xs = ys := by
  refine List.right_unique_forall₂' ?_ hx hy
  rintro v _ _ ⟨e, he, rfl⟩ ⟨e', he', rfl⟩
  rw [Except.ok.inj (he.symm.trans he')]

/-- The circuit runs on the elements that are read, and every equality and truth that it asserts
holds. -/
def AssertsHold (f : PrimeField) [Fact f.modulus.Prime] (c : Circuit)
    (privateValues publicValues : List Value) : Prop :=
  ∃ xs ys env ds, Reads f privateValues xs ∧ Reads f publicValues ys ∧
    Reference.run c.statements (c.paramEnv (xs ++ ys)) = .ok (env, ds) ∧ ∀ d ∈ ds, d.Met

variable {f : PrimeField} [Fact f.modulus.Prime] {bits : Nat} {c : Circuit} {sys : ConstraintSystem}
  {privateValues publicValues : List Value} {w : Assignment}

/-- The witness of inputs that satisfy a circuit has no residuals. -/
theorem residual_eq_zero_of_assertsHold (h : c.lower ⟨f, bits⟩ = .ok sys)
    (hw : sys.witness f privateValues publicValues = .ok w)
    (hasserts : AssertsHold f c privateValues publicValues) :
    ∀ k ∈ sys.constraints, k.residual f.modulus w = .ok 0 := by
  obtain ⟨s, hs, rfl⟩ := lower_eq_ok_iff.mp h
  obtain ⟨-, -, xs, ys, hxs, hys, ds, hrun, -, hresidual⟩ := run_of_witness hs hw
  obtain ⟨xs', ys', env, ds', hxs', hys', hrun', hmet⟩ := hasserts
  obtain rfl := hxs.eq hxs'
  obtain rfl := hys.eq hys'
  obtain ⟨-, rfl⟩ := Prod.mk.inj (Except.ok.inj (hrun.symm.trans hrun'))
  exact hresidual.mpr hmet

theorem isSatisfied_of_assertsHold (hle : f.modulus ≤ scalarModulus)
    (h : c.lower ⟨f, bits⟩ = .ok sys) (hw : sys.witness f privateValues publicValues = .ok w)
    (hasserts : AssertsHold f c privateValues publicValues) :
    sys.isSatisfied f.modulus w = .ok true := by
  obtain ⟨s, hs, rfl⟩ := lower_eq_ok_iff.mp h
  have hcarries := gives_witness (f := f) (laidOut_system hs) privateValues publicValues
  rw [hw] at hcarries
  have hreports : (s.system c).Reports f.modulus w id :=
    reports_of_lower hle h fun i hi => (hcarries.isSome_iff i).mpr hi
  exact hreports.isSatisfied_iff.mpr ⟨hcarries.one, residual_eq_zero_of_assertsHold h hw hasserts⟩

/-! ## Greater fields -/

/-- The circuit `balance == expected`. -/
def equalityCircuit : Circuit where
  publicParams := [⟨"expected", 0⟩]
  privateParams := [⟨"balance", 0⟩]
  statements := [.assert (.binary .eq (.identifier "balance") (.identifier "expected")) none]

/-- The constraint of the equality: `(w₁ - w₂) * 1 = 0`. -/
def equalityConstraint (f : PrimeField) : Constraint :=
  ⟨(LinearForm.single 1 ++ (LinearForm.single 2).negate f).merge f, LinearForm.one.merge f, []⟩

/-- The system of the equality. -/
def equalitySystem (f : PrimeField) : ConstraintSystem where
  numWitnesses := 3
  publicInputs := [2]
  privateInputs := [1]
  constraints := [equalityConstraint f]
  computations := []

theorem lower_equalityCircuit (f : PrimeField) (bits : Nat) :
    equalityCircuit.lower ⟨f, bits⟩ = .ok (equalitySystem f) := rfl

section Equality

variable (f : PrimeField) [Fact f.modulus.Prime]

theorem canonical_one : Canonical f.modulus 1 :=
  ⟨by decide, by exact_mod_cast (Fact.out : f.modulus.Prime).one_lt⟩

theorem canonical_modulus_sub_one : Canonical f.modulus (f.modulus - 1) := by
  have hlt := (canonical_one f).2
  exact ⟨by omega, by omega⟩

theorem reduce_one : f.reduce 1 = 1 := f.reduce_of_canonical (canonical_one f)

theorem reduce_neg_one : f.reduce (-1) = f.modulus - 1 := by
  rw [PrimeField.reduce, Int.emod_eq_add_self_emod, neg_add_eq_sub]
  exact f.reduce_of_canonical (canonical_modulus_sub_one f)

/-- Generation gives the value one to both sides. -/
theorem witness_equality :
    (equalitySystem f).witness f [.int 1] [.int 1] = .ok (start [1] [1]) := by
  have hparse : parseAll f [.int 1] = .ok [1] := by
    conv_rhs => rw [← reduce_one f]
    rfl
  obtain ⟨s, hs, heq⟩ := lower_eq_ok_iff.mp (lower_equalityCircuit f 1)
  cases hs
  rw [heq]
  exact witness_eq_ok_iff.mpr ⟨rfl, rfl, [1], [1], hparse, hparse, rfl, fun i hi =>
    isSome_start_iff.mpr hi⟩

theorem assertsHold_equality : AssertsHold f equalityCircuit [.int 1] [.int 1] := by
  have hreads : Reads f [.int 1] [1] := .cons ⟨_, rfl, by simp [PrimeField.element]⟩ .nil
  exact ⟨[1], [1], _, [.equal 1 1], hreads, hreads, rfl, List.forall_mem_singleton.mpr rfl⟩

/-- The coefficients of the difference are `1` and `p - 1`. -/
theorem equalityConstraint_eq :
    equalityConstraint f = ⟨[⟨1, 1⟩, ⟨f.modulus - 1, 2⟩], LinearForm.one, []⟩ := by
  have hne : (f.modulus : Int) - 1 ≠ 0 := by
    have hlt := (canonical_one f).2
    omega
  have htop := f.reduce_of_canonical (canonical_modulus_sub_one f)
  simp [equalityConstraint, LinearForm.merge, LinearForm.addTerm, LinearForm.single, LinearForm.one,
    LinearForm.negate, reduce_one, reduce_neg_one, htop, hne]

/-- Where the modulus is greater than the scalar modulus, what is left of `p - 1` no longer cancels
`1`. -/
theorem not_isSatisfied_equality (hgt : scalarModulus < f.modulus) :
    (equalitySystem f).isSatisfied f.modulus (start [1] [1]) ≠ .ok true := by
  have hreports : (equalitySystem f).Reports f.modulus (start [1] [1]) (Constraint.reduceBy .scalar) :=
    reports_reduceBy_of_lower (lower_equalityCircuit f 1) fun i hi => isSome_start_iff.mpr hi
  intro h
  have hzero := (hreports.isSatisfied_iff.mp h).2 _ List.mem_cons_self
  obtain ⟨-, hholds⟩ := Constraint.residual_eq_zero_iff.mp hzero
  have hget : ∀ i < 3, (start [1] [1]).get? i = some 1 := by decide
  have hvalue : ∀ i < 3, (start [1] [1]).residue f.modulus i = 1 := fun i hi =>
    (Assignment.residue_of_get? (hget i hi)).trans Int.cast_one
  have hsum : ((1 + PrimeField.scalar.reduce (f.modulus - 1) : Int) : ZMod f.modulus) = 0 := by
    rw [equalityConstraint_eq] at hholds
    simpa [Constraint.Holds, Constraint.reduceBy, LinearForm.reduceBy, LinearForm.one, oneIndex,
      hvalue, reduce_one] using hholds
  -- the sum is positive and at most the scalar modulus, so the field's modulus does not divide it
  have hdvd := (ZMod.intCast_zmod_eq_zero_iff_dvd _ _).mp hsum
  have hcanonical := PrimeField.scalar.canonical_reduce (f.modulus - 1)
  have hscalar : PrimeField.scalar.modulus = scalarModulus := rfl
  have hle := Int.le_of_dvd (by have := hcanonical.1; omega) hdvd
  have hlt := hcanonical.2
  omega

end Equality

/-- **Fields of the check.** For circuits lowered over a prime field, and any full witness, the dense
check reports the places at which the constraints fail with their coefficients reduced modulo the scalar
modulus.  These are the places at which the constraints themselves fail, for every circuit and witness,
exactly if the field is not greater than the scalar field; and exactly then every witness that is
generated for inputs that satisfy a circuit is accepted. -/
theorem dense_check_right_iff_modulus_le (f : PrimeField) [Fact f.modulus.Prime] (bits : Nat) :
    (∀ (c : Circuit) sys, c.lower ⟨f, bits⟩ = .ok sys → ∀ w : Assignment,
      (∀ i < sys.numWitnesses, (w.get? i).isSome) →
        sys.Reports f.modulus w (Constraint.reduceBy .scalar)) ∧
    ((∀ (c : Circuit) sys, c.lower ⟨f, bits⟩ = .ok sys → ∀ w : Assignment,
      (∀ i < sys.numWitnesses, (w.get? i).isSome) → sys.Reports f.modulus w id) ↔
        f.modulus ≤ scalarModulus) ∧
    ((∀ (c : Circuit) sys, c.lower ⟨f, bits⟩ = .ok sys → ∀ privateValues publicValues w,
      sys.witness f privateValues publicValues = .ok w →
      AssertsHold f c privateValues publicValues → sys.isSatisfied f.modulus w = .ok true) ↔
        f.modulus ≤ scalarModulus) := by
  refine ⟨fun c sys h w => reports_reduceBy_of_lower h, ⟨fun hright => ?_, ?_⟩, ⟨fun hright => ?_, ?_⟩⟩
  · -- the constraint of the equality has the residual zero, yet its place is reported
    by_contra hgt
    refine not_isSatisfied_equality f (Nat.not_le.mp hgt) ?_
    have hreports := hright _ _ (lower_equalityCircuit f bits) (start [1] [1])
      fun i hi => isSome_start_iff.mpr hi
    exact hreports.isSatisfied_iff.mpr ⟨rfl, residual_eq_zero_of_assertsHold
      (lower_equalityCircuit f bits) (witness_equality f) (assertsHold_equality f)⟩
  · exact fun hle c sys h w => reports_of_lower hle h
  · by_contra hgt
    exact not_isSatisfied_equality f (Nat.not_le.mp hgt)
      (hright _ _ (lower_equalityCircuit f bits) _ _ _ (witness_equality f) (assertsHold_equality f))
  · exact fun hle c sys h privateValues publicValues w => isSatisfied_of_assertsHold hle h

/-- The field of the coordinates of the curve's points, which is a little greater than the scalar
field. -/
def coordinateField : PrimeField := ⟨baseModulus⟩

instance : Fact coordinateField.modulus.Prime := ⟨baseModulus_prime⟩

/-- A balance over the small field is accepted.  Over the coordinate field the check is not right, and
it refuses that one is one. -/
theorem dense_check_balance_and_equality :
    (∃ w, smallBalanceSystem.witness smallField [.int 6] [.int 3] = .ok w ∧
      smallBalanceSystem.isSatisfied 7 w = .ok true) ∧
    (¬ ∀ (c : Circuit) sys, c.lower ⟨coordinateField, 64⟩ = .ok sys → ∀ w : Assignment,
      (∀ i < sys.numWitnesses, (w.get? i).isSome) → sys.Reports baseModulus w id) ∧
    (equalitySystem coordinateField).isSatisfied baseModulus (start [1] [1]) ≠ .ok true := by
  have hgt : scalarModulus < coordinateField.modulus := by decide
  have hlower : balanceCircuit.lower ⟨smallField, 4⟩ = .ok smallBalanceSystem := rfl
  have hxs : Reads smallField [.int 6] [6] := .cons ⟨_, rfl, rfl⟩ .nil
  have hys : Reads smallField [.int 3] [3] := .cons ⟨_, rfl, rfl⟩ .nil
  obtain ⟨w, hw⟩ : ∃ w, smallBalanceSystem.witness smallField [.int 6] [.int 3] = .ok w := by
    obtain ⟨s, hs, heq⟩ := lower_eq_ok_iff.mp hlower
    rw [heq]
    exact (exists_witness_iff hs rfl rfl hxs hys).mpr ⟨_, _, rfl, by decide⟩
  refine ⟨⟨w, hw, ?_⟩, ?_, not_isSatisfied_equality coordinateField hgt⟩
  · exact (dense_check_right_iff_modulus_le smallField 4).2.2.mpr (by decide) _ _ hlower _ _ _ hw
      ⟨_, _, _, _, hxs, hys, rfl, by decide +kernel⟩
  · exact (dense_check_right_iff_modulus_le coordinateField 64).2.1.not.mpr (Nat.not_le.mpr hgt)

end Witness

end ArrowCircuit
