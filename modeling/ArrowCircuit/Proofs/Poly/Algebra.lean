import ArrowCircuit.Poly.Basic
import ArrowCircuit.Proofs.PrimeField.Residue
import Mathlib.Algebra.Polynomial.Div
import Mathlib.Algebra.Polynomial.Eval.Degree
import Mathlib.Data.List.GetD

/-!
# Coefficient lists as polynomials

A list of coefficients stands for a polynomial over the scalar field.  The operations on lists are
those on polynomials, with the lengths that untrimmed lists have, and synthetic division by `X - root`
is exact at a root.
-/

namespace ArrowCircuit.Poly

open Polynomial

/-! ## Representatives -/

@[simp] theorem intCast_reduce (z : Int) : ((reduce z : Int) : ZMod scalarModulus) = z := by
  rw [reduce, ZMod.intCast_mod]

theorem canonical_reduce (z : Int) : Canonical scalarModulus (reduce z) := by
  rw [reduce, emod_eq_val]
  exact canonical_val _

@[simp] theorem intCast_inverse (z : Int) :
    ((inverse z : Int) : ZMod scalarModulus) = (z : ZMod scalarModulus)⁻¹ := by
  rw [inverse]
  by_cases h : reduce z = 0
  · rw [if_pos h, ← intCast_reduce z, h, Int.cast_zero, inv_zero]
  · rw [if_neg h, intCast_reduce, Element.euclid_eq_inv (canonical_reduce z) h, intCast_reduce]

/-! ## The polynomial of a list -/

/-- The polynomial with the given coefficients. -/
noncomputable def toPolynomial : Poly → (ZMod scalarModulus)[X]
  | [] => 0
  | c :: p => C (c : ZMod scalarModulus) + X * toPolynomial p

@[simp] theorem toPolynomial_nil : toPolynomial [] = 0 := rfl

@[simp] theorem toPolynomial_cons (c : Int) (p : Poly) :
    toPolynomial (c :: p) = C (c : ZMod scalarModulus) + X * toPolynomial p := rfl

theorem coeff_toPolynomial (p : Poly) (i : Nat) :
    (toPolynomial p).coeff i = ((p.getD i 0 : Int) : ZMod scalarModulus) := by
  induction p generalizing i with
  | nil => simp
  | cons c p ih =>
      cases i with
      | zero => simp
      | succ i =>
          rw [toPolynomial_cons, coeff_add, coeff_C_succ, coeff_X_mul, ih, zero_add,
            List.getD_cons_succ]

theorem degree_toPolynomial_lt (p : Poly) : (toPolynomial p).degree < (p.length : WithBot ℕ) := by
  rw [degree_lt_iff_coeff_zero]
  intro i hi
  rw [coeff_toPolynomial, List.getD_eq_default _ _ (by exact_mod_cast hi), Int.cast_zero]

theorem toPolynomial_append (p q : Poly) :
    toPolynomial (p ++ q) = toPolynomial p + X ^ p.length * toPolynomial q := by
  induction p with
  | nil => simp
  | cons c p ih =>
      rw [List.cons_append, toPolynomial_cons, ih, toPolynomial_cons, List.length_cons, pow_succ]
      ring

@[simp] theorem toPolynomial_zeros (n : Nat) : toPolynomial (zeros n) = 0 := by
  induction n with
  | zero => rfl
  | succ n ih =>
      rw [zeros, List.replicate_succ, toPolynomial_cons, ← zeros, ih]
      simp

@[simp] theorem toPolynomial_map_reduce (p : Poly) :
    toPolynomial (p.map reduce) = toPolynomial p := by
  induction p with
  | nil => rfl
  | cons c p ih => rw [List.map_cons, toPolynomial_cons, ih, toPolynomial_cons, intCast_reduce]

/-! ## Values -/

theorem intCast_eval (p : Poly) (x : Int) :
    ((eval p x : Int) : ZMod scalarModulus) = (toPolynomial p).eval (x : ZMod scalarModulus) := by
  induction p with
  | nil => simp [eval]
  | cons c p ih =>
      have hcons : eval (c :: p) x = reduce (c + x * eval p x) := rfl
      rw [hcons, intCast_reduce, Int.cast_add, Int.cast_mul, ih, toPolynomial_cons, eval_add, eval_C,
        eval_mul, eval_X]

theorem canonical_eval (p : Poly) (x : Int) : Canonical scalarModulus (eval p x) := by
  cases p with
  | nil =>
      have hpos : (0 : Int) < scalarModulus := by decide
      exact ⟨Int.le_refl 0, hpos⟩
  | cons c p => exact canonical_reduce _

theorem eval_eq_zero_iff (p : Poly) (x : Int) :
    eval p x = 0 ↔ (toPolynomial p).eval (x : ZMod scalarModulus) = 0 := by
  rw [← intCast_eval, (canonical_eval p x).eq_zero_iff]

/-! ## Sums and products -/

@[simp] theorem length_zeros (n : Nat) : (zeros n).length = n := List.length_replicate

@[simp] theorem toPolynomial_add (p q : Poly) :
    toPolynomial (add p q) = toPolynomial p + toPolynomial q := by
  fun_induction add p q with
  | case1 q => simp
  | case2 p hp => simp
  | case3 x p y q ih =>
      rw [toPolynomial_cons, ih, intCast_reduce, toPolynomial_cons, toPolynomial_cons]
      push_cast
      rw [C_add]
      ring

@[simp] theorem length_add (p q : Poly) : (add p q).length = max p.length q.length := by
  fun_induction add p q with
  | case1 q => simp
  | case2 p hp => simp
  | case3 x p y q ih => simp [ih]

@[simp] theorem length_subScaled (k : Int) (p q : Poly) : (subScaled k p q).length = p.length := by
  fun_induction subScaled k p q <;> simp [*]

theorem toPolynomial_subScaled (k : Int) {p q : Poly} (h : q.length ≤ p.length) :
    toPolynomial (subScaled k p q) = toPolynomial p - C (k : ZMod scalarModulus) * toPolynomial q := by
  fun_induction subScaled k p q with
  | case1 q =>
      have hq : q = [] := List.eq_nil_of_length_eq_zero (Nat.le_zero.mp h)
      simp [hq]
  | case2 p hp => simp
  | case3 x p y q ih =>
      have hle : q.length ≤ p.length := by simpa using h
      rw [toPolynomial_cons, ih hle, intCast_reduce, toPolynomial_cons, toPolynomial_cons]
      push_cast
      rw [C_sub, C_mul]
      ring

/-- Coefficients of the second polynomial beyond the first are cut. -/
theorem subScaled_take (k : Int) (p q : Poly) : subScaled k p q = subScaled k p (q.take p.length) := by
  fun_induction subScaled k p q with
  | case1 q => rw [subScaled]
  | case2 p hp => rw [List.take_nil, subScaled]; exact hp
  | case3 x p y q ih => rw [List.length_cons, List.take_succ_cons, subScaled, ← ih]

@[simp] theorem toPolynomial_scale (k : Int) (p : Poly) :
    toPolynomial (scale k p) = C (k : ZMod scalarModulus) * toPolynomial p := by
  induction p with
  | nil => simp [scale]
  | cons c p ih =>
      rw [scale, List.map_cons, ← scale, toPolynomial_cons, ih, intCast_reduce, toPolynomial_cons]
      push_cast
      rw [C_mul]
      ring

@[simp] theorem length_scale (k : Int) (p : Poly) : (scale k p).length = p.length :=
  List.length_map _

theorem toPolynomial_mulLoop (p q : Poly) :
    toPolynomial (mulLoop q p) = toPolynomial p * toPolynomial q := by
  induction p with
  | nil => simp [mulLoop]
  | cons c p ih =>
      rw [mulLoop, toPolynomial_add, toPolynomial_scale, toPolynomial_cons, ih, toPolynomial_cons,
        Int.cast_zero, C_0]
      ring

@[simp] theorem toPolynomial_mul (p q : Poly) :
    toPolynomial (mul p q) = toPolynomial p * toPolynomial q := by
  rw [mul]
  split
  · next h => simp [List.isEmpty_iff.mp h]
  · exact toPolynomial_mulLoop p q

theorem length_mulLoop {q : Poly} (hq : q ≠ []) (p : Poly) :
    (mulLoop q p).length = p.length + q.length - 1 := by
  have hpos : 0 < q.length := List.length_pos_iff.mpr hq
  induction p with
  | nil => simp [mulLoop]
  | cons c p ih =>
      rw [mulLoop, length_add, length_scale, List.length_cons, ih, List.length_cons]
      omega

theorem length_mul (p q : Poly) : (mul p q).length = p.length + q.length - 1 := by
  rw [mul]
  split
  · next h => simp [List.isEmpty_iff.mp h]
  · next h => exact length_mulLoop (fun hq => h (by rw [hq]; rfl)) p

/-! ## Division by `X - root` -/

/-- Synthetic division: the remainder is the first of the values of the ends. -/
theorem toPolynomial_eq_add_divLinear (root : Int) (p : Poly) :
    toPolynomial p = C (((tailValues root p).headD 0 : Int) : ZMod scalarModulus) +
      (X - C (root : ZMod scalarModulus)) * toPolynomial (divLinear root p) := by
  induction p with
  | nil => simp [tailValues, divLinear]
  | cons c p ih =>
      cases p with
      | nil => simp [tailValues, divLinear]
      | cons d p =>
          -- the value of the whole is `c` plus `root` times the value of the end
          rw [divLinear] at ih
          rw [toPolynomial_cons, ih, divLinear]
          have hvalue : (((tailValues root (c :: d :: p)).headD 0 : Int) : ZMod scalarModulus) =
              c + ((tailValues root (d :: p)).headD 0 : Int) * root := by
            rw [tailValues, List.headD_cons, intCast_reduce, Int.cast_add, Int.cast_mul]
          have htail : toPolynomial (tailValues root (d :: p)) =
              C (((tailValues root (d :: p)).headD 0 : Int) : ZMod scalarModulus) +
                X * toPolynomial (tailValues root p) := by
            rw [tailValues, List.headD_cons, toPolynomial_cons]
          rw [hvalue, htail, C_add, C_mul]
          ring

theorem length_tailValues (root : Int) (p : Poly) : (tailValues root p).length = p.length := by
  induction p with
  | nil => rfl
  | cons c p ih => simp only [tailValues, List.length_cons, ih]

theorem length_divLinear (root : Int) (p : Poly) : (divLinear root p).length = p.length - 1 := by
  cases p with
  | nil => rfl
  | cons c p => rw [divLinear, length_tailValues, List.length_cons, Nat.add_sub_cancel]

/-- Division by a linear factor is exact. -/
theorem mul_toPolynomial_divLinear {root : Int} {p : Poly}
    (h : (toPolynomial p).eval (root : ZMod scalarModulus) = 0) :
    (X - C (root : ZMod scalarModulus)) * toPolynomial (divLinear root p) = toPolynomial p := by
  have hsplit := toPolynomial_eq_add_divLinear root p
  have hvalue : (((tailValues root p).headD 0 : Int) : ZMod scalarModulus) = 0 := by
    rw [hsplit] at h
    simpa using h
  rw [hvalue, C_0, zero_add] at hsplit
  exact hsplit.symm

/-! ## Reduced coefficients -/

/-- All coefficients are representatives. -/
def Reduced (p : Poly) : Prop := ∀ c ∈ p, Canonical scalarModulus c

instance (p : Poly) : Decidable (Reduced p) :=
  inferInstanceAs (Decidable (∀ c ∈ p, Canonical scalarModulus c))

theorem reduced_nil : Reduced [] := fun _ hc => absurd hc List.not_mem_nil

theorem reduced_cons {c : Int} {p : Poly} : Reduced (c :: p) ↔ Canonical scalarModulus c ∧ Reduced p :=
  List.forall_mem_cons

theorem reduced_map_reduce (p : Poly) : Reduced (p.map reduce) := by
  intro c hc
  obtain ⟨d, -, rfl⟩ := List.mem_map.mp hc
  exact canonical_reduce d

theorem canonical_zero : Canonical scalarModulus 0 := canonical_reduce 0

theorem reduced_zeros (n : Nat) : Reduced (zeros n) := by
  intro c hc
  rw [List.eq_of_mem_replicate hc]
  exact canonical_zero

theorem Reduced.getLastD {p : Poly} (h : Reduced p) : Canonical scalarModulus (p.getLastD 0) := by
  rw [List.getLastD_eq_getLast?]
  cases hlast : p.getLast? with
  | none => exact canonical_zero
  | some c => exact h c (List.mem_of_getLast? hlast)

theorem reduced_add (p q : Poly) : Reduced (add p q) := by
  fun_induction add p q with
  | case1 q => exact reduced_map_reduce q
  | case2 p hp => exact reduced_map_reduce p
  | case3 x p y q ih => exact reduced_cons.mpr ⟨canonical_reduce _, ih⟩

theorem reduced_subScaled (k : Int) (p q : Poly) : Reduced (subScaled k p q) := by
  fun_induction subScaled k p q with
  | case1 q => exact reduced_nil
  | case2 p hp => exact reduced_map_reduce p
  | case3 x p y q ih => exact reduced_cons.mpr ⟨canonical_reduce _, ih⟩

theorem reduced_mul (p q : Poly) : Reduced (mul p q) := by
  rw [mul]
  split
  · exact reduced_zeros _
  · cases p with
    | nil => exact reduced_zeros _
    | cons c p => exact reduced_add _ _

/-- Reduced coefficients are those of the polynomial. -/
theorem Reduced.eq_of_toPolynomial_eq {p q : Poly} (hp : Reduced p) (hq : Reduced q)
    (hlen : p.length = q.length) (h : toPolynomial p = toPolynomial q) : p = q := by
  refine List.ext_getElem hlen fun i hi hi' => ?_
  have hcoeff := congrArg (fun r => r.coeff i) h
  simp only [coeff_toPolynomial, List.getD_eq_getElem _ _ hi, List.getD_eq_getElem _ _ hi'] at hcoeff
  rw [← (hp _ (List.getElem_mem hi)).val_intCast, hcoeff,
    (hq _ (List.getElem_mem hi')).val_intCast]

/-- A reduced list stands for zero exactly when it holds nothing but zeros. -/
theorem Reduced.toPolynomial_eq_zero_iff {p : Poly} (hp : Reduced p) :
    toPolynomial p = 0 ↔ ∀ c ∈ p, c = 0 := by
  rw [← List.eq_replicate_length]
  constructor
  · intro h
    refine hp.eq_of_toPolynomial_eq (reduced_zeros p.length) (length_zeros _).symm ?_
    exact h.trans (toPolynomial_zeros _).symm
  · intro h
    rw [h]
    exact toPolynomial_zeros _

end ArrowCircuit.Poly
