import ArrowCircuit.Constraint.Check
import ArrowCircuit.Proofs.PrimeField.Residue

/-!
# The value of a linear form

Under a total assignment of residues a linear form has a value in `ZMod p`, and a constraint is an
equation between such values.  Merging and negating act on values as they should, and the checks on
partial integer assignments (`LinearForm.eval`, `Constraint.residual`) compute exactly these values
whenever every index they read is present.
-/

namespace ArrowCircuit

/-! ## Values of forms -/

namespace LinearForm

variable {p : Nat} (w : Nat → ZMod p)

/-- The sum of the terms of a form over a total assignment. -/
def value (terms : LinearForm) : ZMod p :=
  (terms.map fun t => (t.coefficient : ZMod p) * w t.index).sum

@[simp] theorem value_nil : value w [] = 0 := rfl

@[simp] theorem value_cons (t : LinearTerm) (terms : LinearForm) :
    value w (t :: terms) = t.coefficient * w t.index + value w terms := by
  simp [value]

@[simp] theorem value_append (l r : LinearForm) : value w (l ++ r) = value w l + value w r := by
  simp [value]

@[simp] theorem value_single (i : Nat) : value w (single i) = w i := by
  simp [single]

theorem value_one (h : w oneIndex = 1) : value w one = 1 := by
  simp [one, h]

/-- A form only sees the indices of its terms. -/
theorem value_congr {w v : Nat → ZMod p} {terms : LinearForm}
    (h : ∀ t ∈ terms, w t.index = v t.index) : value w terms = value v terms := by
  rw [value, value, List.map_congr_left fun t ht => by rw [h t ht]]

end LinearForm

namespace LinearForm

variable (f : PrimeField) (w : Nat → ZMod f.modulus)

theorem value_addTerm (c : Int) (i : Nat) (terms : LinearForm) :
    value w (addTerm f c i terms) = value w terms + c * w i := by
  induction terms with
  | nil => simp [addTerm]
  | cons t rest ih =>
      rw [addTerm]
      by_cases h : t.index = i
      · rw [if_pos h, value_cons, value_cons, f.intCast_reduce, h]
        push_cast
        ring
      · rw [if_neg h, value_cons, value_cons, ih]
        ring

theorem value_foldl_addTerm (terms acc : LinearForm) :
    value w (terms.foldl (fun acc t => addTerm f t.coefficient t.index acc) acc) =
      value w acc + value w terms := by
  induction terms generalizing acc with
  | nil => simp
  | cons t rest ih =>
      rw [List.foldl_cons, ih, value_addTerm, value_cons]
      ring

theorem value_filter_ne_zero (terms : LinearForm) :
    value w (terms.filter (·.coefficient ≠ 0)) = value w terms := by
  induction terms with
  | nil => rfl
  | cons t rest ih =>
      by_cases h : t.coefficient = 0
      · simp [h, ← ih]
      · simp [h, ← ih]

/-- Merging a form keeps its value. -/
@[simp] theorem value_merge (terms : LinearForm) : value w (terms.merge f) = value w terms := by
  rw [merge, value_filter_ne_zero, value_foldl_addTerm, value_nil, zero_add]

@[simp] theorem value_negate (terms : LinearForm) :
    value w (terms.negate f) = -value w terms := by
  induction terms with
  | nil => simp [negate]
  | cons t rest ih =>
      rw [negate, List.map_cons, value_cons, ← negate, ih, value_cons, f.intCast_reduce]
      push_cast
      ring

/-! ## Indices -/

/-- Every index of a form has a property. -/
def Within (P : Nat → Prop) (terms : LinearForm) : Prop := ∀ t ∈ terms, P t.index

section Within

variable {P Q : Nat → Prop} {terms : LinearForm}

theorem within_cons {t : LinearTerm} : Within P (t :: terms) ↔ P t.index ∧ Within P terms :=
  List.forall_mem_cons

theorem within_singleton {t : LinearTerm} (h : P t.index) : Within P [t] :=
  within_cons.mpr ⟨h, nofun⟩

theorem Within.append {l r : LinearForm} (hl : Within P l) (hr : Within P r) : Within P (l ++ r) :=
  List.forall_mem_append.mpr ⟨hl, hr⟩

theorem Within.mono (h : Within P terms) (hPQ : ∀ i, P i → Q i) : Within Q terms :=
  fun t ht => hPQ t.index (h t ht)

theorem within_addTerm (f : PrimeField) {c : Int} {i : Nat} (h : Within P terms) (hi : P i) :
    Within P (addTerm f c i terms) := by
  induction terms with
  | nil => exact within_singleton hi
  | cons t rest ih =>
      obtain ⟨hhead, htail⟩ := within_cons.mp h
      rw [addTerm]
      by_cases ht : t.index = i
      · rw [if_pos ht]
        exact within_cons.mpr ⟨hi, htail⟩
      · rw [if_neg ht]
        exact within_cons.mpr ⟨hhead, ih htail⟩

/-- Merging brings in no new index. -/
theorem Within.merge (f : PrimeField) (h : Within P terms) : Within P (terms.merge f) := by
  have hfold : ∀ (terms acc : LinearForm), Within P terms → Within P acc →
      Within P (terms.foldl (fun acc t => addTerm f t.coefficient t.index acc) acc) := by
    intro terms
    induction terms with
    | nil => exact fun acc _ hacc => hacc
    | cons t rest ih =>
        intro acc ht hacc
        obtain ⟨hhead, htail⟩ := within_cons.mp ht
        exact ih _ htail (within_addTerm f hacc hhead)
  intro t ht
  exact hfold terms [] h nofun t (List.mem_of_mem_filter ht)

theorem Within.negate (f : PrimeField) (h : Within P terms) : Within P (terms.negate f) := by
  intro t ht
  obtain ⟨u, hu, rfl⟩ := List.mem_map.mp ht
  exact h u hu

end Within

/-! ## Merged forms -/

/-- A form with one term for each index, whose coefficients are reduced. -/
structure IsMerged (f : PrimeField) (terms : LinearForm) : Prop where
  nodup : (terms.map (·.index)).Nodup
  canonical : ∀ t ∈ terms, Canonical f.modulus t.coefficient

theorem isMerged_nil (f : PrimeField) : IsMerged f [] :=
  ⟨List.nodup_nil, fun _ ht => absurd ht List.not_mem_nil⟩

theorem isMerged_cons {f : PrimeField} {t : LinearTerm} {terms : LinearForm} :
    IsMerged f (t :: terms) ↔
      Canonical f.modulus t.coefficient ∧ terms.Within (· ≠ t.index) ∧ IsMerged f terms := by
  have hnotMem : t.index ∉ terms.map (·.index) ↔ terms.Within (· ≠ t.index) := by
    simp [Within]
  constructor
  · rintro ⟨hnodup, hcanonical⟩
    obtain ⟨hhead, hrest⟩ := List.nodup_cons.mp hnodup
    obtain ⟨hc, hcs⟩ := List.forall_mem_cons.mp hcanonical
    exact ⟨hc, hnotMem.mp hhead, hrest, hcs⟩
  · rintro ⟨hc, hhead, hrest, hcs⟩
    exact ⟨List.nodup_cons.mpr ⟨hnotMem.mpr hhead, hrest⟩, List.forall_mem_cons.mpr ⟨hc, hcs⟩⟩

section IsMerged

variable {f : PrimeField} [NeZero f.modulus] {terms : LinearForm}

theorem IsMerged.addTerm (h : IsMerged f terms) (c : Int) (i : Nat) :
    IsMerged f (addTerm f c i terms) := by
  induction terms with
  | nil => exact isMerged_cons.mpr ⟨f.canonical_reduce c, fun _ ht => absurd ht List.not_mem_nil, h⟩
  | cons t rest ih =>
      obtain ⟨hc, hhead, hrest⟩ := isMerged_cons.mp h
      rw [LinearForm.addTerm]
      by_cases ht : t.index = i
      · rw [if_pos ht, ← ht]
        exact isMerged_cons.mpr ⟨f.canonical_reduce _, hhead, hrest⟩
      · rw [if_neg ht]
        exact isMerged_cons.mpr ⟨hc, within_addTerm f hhead (Ne.symm ht), ih hrest⟩

/-- Merging adds up the terms of an index and reduces the sums. -/
theorem isMerged_merge (terms : LinearForm) : IsMerged f (terms.merge f) := by
  have hfold : ∀ terms acc : LinearForm, IsMerged f acc →
      IsMerged f (terms.foldl (fun acc t => LinearForm.addTerm f t.coefficient t.index acc) acc) := by
    intro terms
    induction terms with
    | nil => exact fun acc hacc => hacc
    | cons t rest ih => exact fun acc hacc => ih _ (hacc.addTerm t.coefficient t.index)
  have hall := hfold terms [] (isMerged_nil f)
  exact ⟨hall.nodup.sublist (List.filter_sublist.map _),
    fun t ht => hall.canonical t (List.mem_of_mem_filter ht)⟩

end IsMerged

end LinearForm

/-! ## Constraints as equations -/

/-- The equation of a constraint under a total assignment. -/
def Constraint.Holds {p : Nat} (w : Nat → ZMod p) (c : Constraint) : Prop :=
  c.a.value w * c.b.value w = c.c.value w

/-- All three forms of a constraint are merged. -/
structure Constraint.IsMerged (f : PrimeField) (c : Constraint) : Prop where
  a : c.a.IsMerged f
  b : c.b.IsMerged f
  c : c.c.IsMerged f

/-! ## Partial assignments -/

namespace Assignment

/-- The residue at an index; an index without a value counts as zero. -/
def residue (p : Nat) (w : Assignment) (i : Nat) : ZMod p := ((w.get? i).getD 0 : Int)

theorem residue_of_get? {p : Nat} {w : Assignment} {i : Nat} {v : Int} (h : w.get? i = some v) :
    w.residue p i = v := by
  rw [residue, h, Option.getD_some]

/-- Whether an assignment has a value for every index of a form. -/
def Covers (w : Assignment) (terms : LinearForm) : Prop := ∀ t ∈ terms, (w.get? t.index).isSome

theorem covers_nil (w : Assignment) : w.Covers [] := by
  intro t ht
  exact absurd ht List.not_mem_nil

theorem covers_cons {w : Assignment} {t : LinearTerm} {terms : LinearForm} :
    w.Covers (t :: terms) ↔ (w.get? t.index).isSome ∧ w.Covers terms := by
  simp [Covers]

theorem covers_append {w : Assignment} {l r : LinearForm} :
    w.Covers (l ++ r) ↔ w.Covers l ∧ w.Covers r := by
  simp only [Covers, List.mem_append, or_imp, forall_and]

theorem Covers.merge {w : Assignment} (f : PrimeField) {terms : LinearForm}
    (h : w.Covers terms) : w.Covers (terms.merge f) :=
  LinearForm.Within.merge (P := fun i => (w.get? i).isSome) f h

theorem Covers.negate {w : Assignment} (f : PrimeField) {terms : LinearForm}
    (h : w.Covers terms) : w.Covers (terms.negate f) :=
  LinearForm.Within.negate (P := fun i => (w.get? i).isSome) f h

theorem covers_singleton {w : Assignment} {t : LinearTerm} (h : (w.get? t.index).isSome) :
    w.Covers [t] :=
  covers_cons.mpr ⟨h, covers_nil w⟩

/-- One assignment has all values of another. -/
def Le (w v : Assignment) : Prop := ∀ i x, w.get? i = some x → v.get? i = some x

theorem Le.refl (w : Assignment) : w.Le w := fun _ _ h => h

theorem Le.isSome {w v : Assignment} (h : w.Le v) {i : Nat} (hi : (w.get? i).isSome) :
    (v.get? i).isSome := by
  obtain ⟨x, hx⟩ := Option.isSome_iff_exists.mp hi
  rw [h i x hx, Option.isSome_some]

theorem Le.covers {w v : Assignment} (h : w.Le v) {terms : LinearForm} (ht : w.Covers terms) :
    v.Covers terms :=
  fun t hmem => h.isSome (ht t hmem)

theorem Le.residue_eq {p : Nat} {w v : Assignment} (h : w.Le v) {i : Nat}
    (hi : (w.get? i).isSome) : v.residue p i = w.residue p i := by
  obtain ⟨x, hx⟩ := Option.isSome_iff_exists.mp hi
  rw [residue_of_get? hx, residue_of_get? (h i x hx)]

theorem Le.value_eq {p : Nat} {w v : Assignment} (h : w.Le v) {terms : LinearForm}
    (ht : w.Covers terms) : terms.value (v.residue p) = terms.value (w.residue p) :=
  LinearForm.value_congr fun t hmem => h.residue_eq (ht t hmem)

end Assignment

namespace LinearForm

/-- The sum of a form over a partial assignment that covers it. -/
theorem sum_of_covers {w : Assignment} {terms : LinearForm} (h : w.Covers terms) (p : Nat) :
    ∃ z, sum w terms = .ok z ∧ (z : ZMod p) = terms.value (w.residue p) := by
  induction terms with
  | nil => exact ⟨0, rfl, by simp⟩
  | cons t rest ih =>
      obtain ⟨hhead, htail⟩ := Assignment.covers_cons.mp h
      obtain ⟨v, hv⟩ := Option.isSome_iff_exists.mp hhead
      obtain ⟨z, hz, hcast⟩ := ih htail
      refine ⟨t.coefficient * v + z, ?_, ?_⟩
      · simp [sum, hv, hz, bind, Except.bind, pure, Except.pure]
      · rw [value_cons, Assignment.residue_of_get? hv, ← hcast]
        push_cast
        ring

theorem covers_of_sum {w : Assignment} {terms : LinearForm} {z : Int} (h : sum w terms = .ok z) :
    w.Covers terms := by
  induction terms generalizing z with
  | nil => exact Assignment.covers_nil w
  | cons t rest ih =>
      rw [sum] at h
      cases hv : w.get? t.index with
      | none => simp [hv] at h
      | some v =>
          cases hz : sum w rest with
          | error i => simp [hv, hz, bind, Except.bind] at h
          | ok z' => exact Assignment.covers_cons.mpr ⟨by rw [hv, Option.isSome_some], ih hz⟩

/-- **Evaluation.** Over an assignment that covers the form, evaluation gives the representative of
the form's value. -/
theorem eval_of_covers {p : Nat} [NeZero p] {w : Assignment} {terms : LinearForm}
    (h : w.Covers terms) :
    terms.eval p w = .ok ((terms.value (w.residue p)).val : Int) := by
  obtain ⟨z, hz, hcast⟩ := sum_of_covers h p
  simp only [eval, hz, bind, Except.bind, pure, Except.pure]
  rw [emod_eq_val, hcast]

theorem covers_of_eval {p : Nat} {w : Assignment} {terms : LinearForm} {z : Int}
    (h : terms.eval p w = .ok z) : w.Covers terms := by
  cases hz : sum w terms with
  | error i => simp [eval, hz, bind, Except.bind] at h
  | ok z' => exact covers_of_sum hz

end LinearForm

/-- Whether an assignment has a value for every index of a constraint. -/
def Assignment.CoversConstraint (w : Assignment) (c : Constraint) : Prop :=
  w.Covers c.a ∧ w.Covers c.b ∧ w.Covers c.c

namespace Constraint

variable {p : Nat} {w : Assignment} {c : Constraint}

theorem covers_of_residual {z : Int} (h : c.residual p w = .ok z) : w.CoversConstraint c := by
  cases ha : c.a.eval p w with
  | error i => simp [residual, ha, Except.mapError, bind, Except.bind] at h
  | ok a =>
      cases hb : c.b.eval p w with
      | error i => simp [residual, ha, hb, Except.mapError, bind, Except.bind] at h
      | ok b =>
          cases hc : c.c.eval p w with
          | error i => simp [residual, ha, hb, hc, Except.mapError, bind, Except.bind] at h
          | ok d =>
              exact ⟨LinearForm.covers_of_eval ha, LinearForm.covers_of_eval hb,
                LinearForm.covers_of_eval hc⟩

/-- The residual of a covered constraint represents the difference of its two sides. -/
theorem residual_of_covers [NeZero p] (h : w.CoversConstraint c) :
    c.residual p w = .ok ((c.a.value (w.residue p) * c.b.value (w.residue p) -
      c.c.value (w.residue p)).val : Int) := by
  simp only [residual, LinearForm.eval_of_covers h.1, LinearForm.eval_of_covers h.2.1,
    LinearForm.eval_of_covers h.2.2, Except.mapError, bind, Except.bind, pure, Except.pure]
  rw [emod_eq_val]
  push_cast
  rw [ZMod.natCast_zmod_val, ZMod.natCast_zmod_val, ZMod.natCast_zmod_val]

/-- **Residuals.** The residual of a constraint is zero exactly when the assignment covers the
constraint and its equation holds. -/
theorem residual_eq_zero_iff [NeZero p] :
    c.residual p w = .ok 0 ↔ w.CoversConstraint c ∧ c.Holds (w.residue p) := by
  constructor
  · intro h
    have hcov := covers_of_residual h
    refine ⟨hcov, ?_⟩
    rw [residual_of_covers hcov, Except.ok.injEq, Int.natCast_eq_zero, ZMod.val_eq_zero] at h
    exact sub_eq_zero.mp h
  · rintro ⟨hcov, h⟩
    rw [residual_of_covers hcov, sub_eq_zero.mpr h, ZMod.val_zero, Nat.cast_zero]

end Constraint

end ArrowCircuit
