import ArrowCircuit.Constraint.Qap
import ArrowCircuit.Proofs.Constraint.LinearForm
import ArrowCircuit.Proofs.Outcome
import Mathlib.Algebra.BigOperators.Group.Finset.Basic
import Mathlib.Algebra.BigOperators.Intervals

/-!
# Dense rows and quadratic programs

A dense row has the inner products that its linear form has values.  The matrices of a system whose
terms lie below the witness exist, and their rows are those of its constraints and of its instance.
-/

namespace ArrowCircuit

/-! ## Inner products -/

theorem intCast_dot {p : Nat} {n : Nat} {xs ys : List Int} (hx : xs.length = n) (hy : ys.length = n) :
    ((dot xs ys : Int) : ZMod p) =
      ∑ i ∈ Finset.range n, ((xs.getD i 0 : Int) : ZMod p) * ((ys.getD i 0 : Int) : ZMod p) := by
  induction xs generalizing ys n with
  | nil =>
      subst hx
      simp [dot]
  | cons x xs ih =>
      obtain ⟨y, ys, rfl⟩ : ∃ y rest, ys = y :: rest :=
        List.exists_cons_of_ne_nil (List.ne_nil_of_length_eq_add_one (hy.trans hx.symm))
      subst hx
      rw [dot, List.length_cons, Finset.sum_range_succ', Int.cast_add, Int.cast_mul,
        ih rfl (by simpa using hy)]
      simp only [List.getD_cons_succ, List.getD_cons_zero]
      rw [add_comm]

theorem dot_replicate_zero (n : Nat) (ys : List Int) : dot (List.replicate n 0) ys = 0 := by
  induction n generalizing ys with
  | zero => rfl
  | succ n ih =>
      cases ys with
      | nil => rfl
      | cons y ys => rw [List.replicate_succ, dot, ih, zero_mul, add_zero]

/-- Where one entry of a row changes, the inner product changes with it. -/
theorem dot_modify (g : Int → Int) {xs ys : List Int} (h : xs.length = ys.length) {i : Nat}
    (hi : i < xs.length) :
    dot (xs.modify i g) ys = dot xs ys + (g (xs.getD i 0) - xs.getD i 0) * ys.getD i 0 := by
  induction xs generalizing ys i with
  | nil => exact absurd hi (Nat.not_lt_zero i)
  | cons x xs ih =>
      obtain ⟨y, ys, rfl⟩ : ∃ y rest, ys = y :: rest :=
        List.exists_cons_of_ne_nil (List.ne_nil_of_length_eq_add_one h.symm)
      cases i with
      | zero =>
          rw [List.modify_zero_cons, dot, dot, List.getD_cons_zero, List.getD_cons_zero]
          ring
      | succ i =>
          rw [List.modify_succ_cons, dot, dot, List.getD_cons_succ, List.getD_cons_succ,
            ih (by simpa using h) (by simpa using hi)]
          ring

theorem intCast_dot_modify {p : Nat} (c : Int) {xs ys : List Int} (h : xs.length = ys.length) {i : Nat}
    (hi : i < xs.length) :
    ((dot (xs.modify i fun x => (x + c) % (p : Int)) ys : Int) : ZMod p) =
      dot xs ys + c * ((ys.getD i 0 : Int) : ZMod p) := by
  rw [dot_modify _ h hi]
  push_cast
  ring

/-! ## Dense rows -/

/-- A row of `n` entries whose inner products are the values of a form. -/
structure IsDense (n : Nat) (terms : LinearForm) (row : List Int) : Prop where
  length_eq : row.length = n
  intCast_dot_eq : ∀ ws : List Int, ws.length = n → ((dot row ws : Int) : ZMod scalarModulus) =
    terms.value fun i => ((ws.getD i 0 : Int) : ZMod scalarModulus)

/-- Whether all indices of a form lie below `n`. -/
def LinearForm.Below (n : Nat) (terms : LinearForm) : Prop := ∀ t ∈ terms, t.index < n

instance (n : Nat) (terms : LinearForm) : Decidable (terms.Below n) :=
  inferInstanceAs (Decidable (∀ t ∈ terms, t.index < n))

theorem isDense_foldl_modify {n : Nat} {terms : LinearForm} (h : terms.Below n) {done : LinearForm}
    {row : List Int} (hrow : IsDense n done row) :
    IsDense n (done ++ terms) (terms.foldl (fun row t =>
      row.modify t.index fun x => (x + t.coefficient) % (scalarModulus : Int)) row) := by
  induction terms generalizing done row with
  | nil =>
      rw [List.append_nil]
      exact hrow
  | cons t terms ih =>
      -- the terms done so far are a part of the form, so that repeated indices add up
      rw [List.append_cons]
      refine ih (fun u hu => h u (List.mem_cons_of_mem t hu)) ⟨?_, fun ws hws => ?_⟩
      · rw [List.length_modify, hrow.length_eq]
      · have hlt : t.index < row.length := by
          rw [hrow.length_eq]
          exact h t List.mem_cons_self
        rw [intCast_dot_modify _ (hrow.length_eq.trans hws.symm) hlt, hrow.intCast_dot_eq ws hws,
          LinearForm.value_append, LinearForm.value_cons, LinearForm.value_nil, add_zero]

/-- A form whose indices lie below `n` is added to a row of zeros term by term. -/
theorem LinearForm.denseRow_of_below {n : Nat} {terms : LinearForm} (h : terms.Below n) :
    terms.denseRow scalarModulus n = .ok (terms.foldl (fun row t =>
      row.modify t.index fun x => (x + t.coefficient) % (scalarModulus : Int))
      (List.replicate n 0)) := by
  have hfind : terms.find? (fun t => n ≤ t.index) = none := by
    rw [List.find?_eq_none]
    intro t ht
    simpa using h t ht
  -- the row is built as an array, and read here as a list
  rw [denseRow, hfind, ← Array.toList_replicate]
  exact congrArg Except.ok (List.foldl_hom Array.toList fun row t => Array.toList_modify.symm).symm

/-- A form whose indices lie below `n` has a dense row of `n` entries. -/
theorem LinearForm.denseRow_eq {n : Nat} {terms : LinearForm} (h : terms.Below n) :
    ∃ row, terms.denseRow scalarModulus n = .ok row ∧ IsDense n terms row := by
  have hempty : IsDense n [] (List.replicate n 0) :=
    ⟨List.length_replicate, fun ws _ => by rw [dot_replicate_zero, LinearForm.value_nil, Int.cast_zero]⟩
  exact ⟨_, denseRow_of_below h, isDense_foldl_modify h hempty⟩

/-! ## Quadratic programs -/

namespace ConstraintSystem

/-- A system of which every term, and every index that the verifier sees, lies below the witness, and
which names no index of the instance twice. -/
structure WellFormed (s : ConstraintSystem) : Prop where
  below : ∀ c ∈ s.constraints, c.a.Below s.numWitnesses ∧ c.b.Below s.numWitnesses ∧
    c.c.Below s.numWitnesses
  indices_lt : ∀ i ∈ s.instanceIndices, i < s.numWitnesses
  indices_nodup : s.instanceIndices.Nodup

/-- The matrices whose rows are those of the constraints and of the instance. -/
structure IsQap (s : ConstraintSystem) (q : Qap) : Prop where
  a : List.Forall₂ (fun c row => IsDense s.numWitnesses c.a row) s.qapConstraints q.a
  b : List.Forall₂ (fun c row => IsDense s.numWitnesses c.b row) s.qapConstraints q.b
  c : List.Forall₂ (fun c row => IsDense s.numWitnesses c.c row) s.qapConstraints q.c

variable {s : ConstraintSystem}

/-- All terms of the rows lie below the witness, those of the instance included. -/
def RowsBelow (s : ConstraintSystem) : Prop :=
  ∀ c ∈ s.qapConstraints, c.a.Below s.numWitnesses ∧ c.b.Below s.numWitnesses ∧
    c.c.Below s.numWitnesses

theorem rowsBelow_of_below
    (hbelow : ∀ c ∈ s.constraints, c.a.Below s.numWitnesses ∧ c.b.Below s.numWitnesses ∧
      c.c.Below s.numWitnesses)
    (hindices : ∀ i ∈ s.instanceIndices, i < s.numWitnesses) : s.RowsBelow := by
  intro c hc
  rcases List.mem_append.mp hc with h | h
  · exact hbelow c h
  · obtain ⟨i, hi, rfl⟩ := List.mem_map.mp h
    refine ⟨fun t ht => ?_, nofun, nofun⟩
    rw [List.mem_singleton.mp ht]
    exact hindices i hi

theorem WellFormed.rowsBelow (hs : s.WellFormed) : s.RowsBelow :=
  rowsBelow_of_below hs.below hs.indices_lt

/-- The rows of one side of the constraints. -/
theorem exists_denseRows {n : Nat} (side : Constraint → LinearForm) {cs : List Constraint}
    (h : ∀ c ∈ cs, (side c).Below n) :
    ∃ rows, cs.mapM (fun c => (side c).denseRow scalarModulus n) = .ok rows ∧
      List.Forall₂ (fun c row => IsDense n (side c) row) cs rows :=
  exists_mapM_eq_ok fun c hc => LinearForm.denseRow_eq (h c hc)

/-- Rows whose terms lie below the witness have matrices. -/
theorem RowsBelow.qap_eq (hs : s.RowsBelow) : ∃ q, s.qap = .ok q ∧ s.IsQap q := by
  obtain ⟨a, ha, hda⟩ := exists_denseRows (·.a) fun c hc => (hs c hc).1
  obtain ⟨b, hb, hdb⟩ := exists_denseRows (·.b) fun c hc => (hs c hc).2.1
  obtain ⟨c, hc, hdc⟩ := exists_denseRows (·.c) fun c hc => (hs c hc).2.2
  refine ⟨⟨a, b, c⟩, ?_, hda, hdb, hdc⟩
  rw [qap]
  simp only [ha, hb, hc]
  rfl

theorem WellFormed.qap_eq (hs : s.WellFormed) : ∃ q, s.qap = .ok q ∧ s.IsQap q :=
  hs.rowsBelow.qap_eq

theorem length_qapConstraints (s : ConstraintSystem) :
    s.qapConstraints.length = s.constraints.length + 1 + s.publicInputs.length := by
  rw [qapConstraints, instanceIndices, List.length_append, List.length_map, List.length_cons]
  omega

namespace IsQap

variable {q : Qap} (hq : s.IsQap q)

include hq

theorem size_eq_length : q.size = s.qapConstraints.length := hq.a.length_eq.symm

theorem size_eq : q.size = s.constraints.length + 1 + s.publicInputs.length :=
  hq.size_eq_length.trans (length_qapConstraints s)

theorem length_b : q.b.length = q.size := hq.b.length_eq.symm.trans hq.size_eq_length.symm

theorem length_c : q.c.length = q.size := hq.c.length_eq.symm.trans hq.size_eq_length.symm

end IsQap

end ConstraintSystem

end ArrowCircuit
