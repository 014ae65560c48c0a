import ArrowCircuit.Poly.Domain
import ArrowCircuit.Proofs.Outcome
import ArrowCircuit.Proofs.Poly.Division
import Mathlib.Algebra.BigOperators.Intervals
import Mathlib.LinearAlgebra.Lagrange

/-!
# Interpolation on the domain

On the points `1, 2, …, n` the vanishing polynomial is the nodal polynomial, the closed form of the
denominators gives the nodal weights, and interpolation and the basis values at an outside point are
Lagrange's.
-/

namespace ArrowCircuit.Poly

open Polynomial

/-- The `i`-th point of the domain in the scalar field. -/
def node (i : Nat) : ZMod scalarModulus := i + 1

theorem node_injOn {n : Nat} (h : n < scalarModulus) :
    Set.InjOn node (Finset.range n : Set Nat) := by
  intro i hi j hj hij
  rw [Finset.mem_coe, Finset.mem_range] at hi hj
  have hcast : (i : ZMod scalarModulus) = j := add_right_cancel hij
  rw [ZMod.natCast_eq_natCast_iff', Nat.mod_eq_of_lt (hi.trans h), Nat.mod_eq_of_lt (hj.trans h)]
    at hcast
  exact hcast

/-! ## The vanishing polynomial -/

theorem length_domain (n : Nat) : (domain n).length = n := by
  rw [domain, List.length_map, List.length_range]

theorem intCast_getElem_domain {n i : Nat} (h : i < (domain n).length) :
    (((domain n)[i] : Int) : ZMod scalarModulus) = node i := by
  simp [domain, node]

theorem domain_succ (n : Nat) : domain (n + 1) = domain n ++ [(n : Int) + 1] := by
  simp [domain, List.range_succ]

theorem toPolynomial_mulLinear (root : Int) (p : Poly) :
    toPolynomial (mulLinear root p) =
      (X - C (root : ZMod scalarModulus)) * toPolynomial p := by
  rw [mulLinear, toPolynomial_subScaled _ (by simp), toPolynomial_cons, Int.cast_zero, C_0]
  ring

theorem vanishing_succ (n : Nat) : vanishing (n + 1) = mulLinear (n + 1) (vanishing n) := by
  rw [vanishing, domain_succ, List.foldl_append]
  rfl

theorem toPolynomial_vanishing (n : Nat) :
    toPolynomial (vanishing n) = Lagrange.nodal (Finset.range n) node := by
  induction n with
  | zero => simp [vanishing, domain]
  | succ n ih =>
      rw [vanishing_succ, toPolynomial_mulLinear, ih, Finset.range_add_one,
        Lagrange.nodal_insert_eq_nodal Finset.notMem_range_self, node]
      push_cast
      rfl

theorem length_vanishing (n : Nat) : (vanishing n).length = n + 1 := by
  induction n with
  | zero => rfl
  | succ n ih => rw [vanishing_succ, mulLinear, length_subScaled, List.length_cons, ih]

theorem endsInOne_vanishing (n : Nat) : EndsInOne n (vanishing n) := by
  refine ⟨length_vanishing n, ?_⟩
  have hdegree : (Lagrange.nodal (Finset.range n) node).natDegree = n := by
    rw [Lagrange.natDegree_nodal, Finset.card_range]
  have hmonic := Lagrange.nodal_monic (s := Finset.range n) (v := node)
  rw [Monic, leadingCoeff, hdegree] at hmonic
  rw [toPolynomial_vanishing, hmonic]

theorem intCast_vanishingAt (n : Nat) (x : Int) :
    ((vanishingAt n x : Int) : ZMod scalarModulus) =
      (Lagrange.nodal (Finset.range n) node).eval (x : ZMod scalarModulus) := by
  induction n with
  | zero => simp [vanishingAt, domain]
  | succ n ih =>
      rw [vanishingAt, domain_succ, List.foldl_append, ← vanishingAt]
      simp only [List.foldl_cons, List.foldl_nil, intCast_reduce]
      rw [Finset.range_add_one, Lagrange.nodal_insert_eq_nodal Finset.notMem_range_self, eval_mul,
        ← ih, node]
      push_cast
      simp only [eval_sub, eval_X, eval_C]
      ring

/-! ## The denominators -/

theorem length_factorials (n : Nat) (k f : Int) : (factorials n k f).length = n := by
  induction n generalizing k f with
  | zero => rfl
  | succ n ih => rw [factorials, List.length_cons, ih]

theorem intCast_getElem_factorials {n k : Nat} {f : Int}
    (hf : (f : ZMod scalarModulus) = k.factorial) {i : Nat} (h : i < (factorials n k f).length) :
    (((factorials n k f)[i] : Int) : ZMod scalarModulus) = (k + i).factorial := by
  induction n generalizing k f i with
  | zero => exact absurd h (Nat.not_lt_zero i)
  | succ n ih =>
      cases i with
      | zero => simpa [factorials] using hf
      | succ i =>
          have hnext : ((reduce (f * (k + 1)) : Int) : ZMod scalarModulus) = (k + 1).factorial := by
            rw [intCast_reduce, Nat.factorial_succ, Nat.cast_mul, ← hf]
            push_cast
            ring
          simp only [factorials, List.getElem_cons_succ]
          have hstep := ih hnext (i := i) (by simpa [factorials, length_factorials] using h)
          rw [Nat.add_right_comm] at hstep
          exact hstep

theorem intCast_alternate (distance : Nat) (d : Int) :
    ((alternate distance d : Int) : ZMod scalarModulus) = (-1) ^ distance * d := by
  rw [alternate]
  split
  · next h =>
      rw [intCast_reduce, (Nat.odd_iff.mpr h).neg_one_pow]
      push_cast
      ring
  · next h => rw [(Nat.even_iff.mpr (by omega)).neg_one_pow, one_mul]

theorem length_denominators (n : Nat) : (denominators n).length = n := by
  simp [denominators, length_factorials]

/-- The points below the `i`-th contribute `i!`, the `m` points above it `(-1)ᵐ m!`. -/
theorem prod_node_sub_node (i m : Nat) :
    ∏ j ∈ (Finset.range (i + 1 + m)).erase i, (node i - node j) =
      (-1) ^ m * ((i.factorial : ZMod scalarModulus) * m.factorial) := by
  induction m with
  | zero =>
      rw [Nat.add_zero, Finset.range_add_one, Finset.erase_insert Finset.notMem_range_self, pow_zero,
        one_mul, Nat.factorial_zero, Nat.cast_one, mul_one, ← Finset.prod_range_add_one_eq_factorial,
        ← Finset.prod_range_reflect, Nat.cast_prod]
      refine Finset.prod_congr rfl fun j hj => ?_
      obtain ⟨t, rfl⟩ := Nat.exists_eq_add_of_le (Finset.mem_range.mp hj)
      rw [show j.succ + t - 1 - j = t by omega, node, node]
      push_cast
      ring
  | succ m ih =>
      -- one more point above, at distance `m + 1`
      have hne : i ≠ i + 1 + m := by omega
      have hmem : i + 1 + m ∉ (Finset.range (i + 1 + m)).erase i := fun h =>
        Finset.notMem_range_self (Finset.mem_of_mem_erase h)
      rw [← Nat.add_assoc, Finset.range_add_one, Finset.erase_insert_of_ne hne.symm,
        Finset.prod_insert hmem, ih, Nat.factorial_succ, node, node]
      push_cast
      ring

/-- **Denominators.** The closed form gives the product of the distances to the other points. -/
theorem intCast_getElem_denominators {n i : Nat} (h : i < (denominators n).length) :
    (((denominators n)[i] : Int) : ZMod scalarModulus) =
      ∏ j ∈ (Finset.range n).erase i, (node i - node j) := by
  have hi : i < n := by rwa [length_denominators] at h
  obtain ⟨m, rfl⟩ : ∃ m, n = i + 1 + m := ⟨n - (i + 1), by omega⟩
  have hone : ((1 : Int) : ZMod scalarModulus) = Nat.factorial 0 := by simp
  have hbelow : ∀ (j : Nat) (hj : j < (factorials (i + 1 + m) 0 1).length),
      (((factorials (i + 1 + m) 0 1)[j] : Int) : ZMod scalarModulus) = j.factorial := by
    intro j hj
    have hvalue := intCast_getElem_factorials (k := 0) hone (i := j) hj
    rwa [Nat.zero_add] at hvalue
  rw [prod_node_sub_node]
  simp only [denominators, List.getElem_zipWith, List.getElem_reverse, List.getElem_range,
    List.length_range, length_factorials, intCast_alternate, intCast_reduce, Int.cast_mul, hbelow]
  rw [show i + 1 + m - 1 - i = m by omega]

/-- Distinct points have distances other than zero. -/
theorem prod_node_sub_node_ne_zero {n i : Nat} (hn : n < scalarModulus) (hi : i < n) :
    ∏ j ∈ (Finset.range n).erase i, (node i - node j) ≠ 0 := by
  refine Finset.prod_ne_zero_iff.mpr fun j hj => sub_ne_zero.mpr fun hij => ?_
  obtain ⟨hne, hmem⟩ := Finset.mem_erase.mp hj
  exact hne (node_injOn hn (by simpa using hi) (by simpa using hmem) hij).symm

/-! ## Interpolation -/

theorem sum_map_range {M : Type} [AddCommMonoid M] (f : Nat → M) (n : Nat) :
    ((List.range n).map f).sum = ∑ i ∈ Finset.range n, f i := rfl

theorem toPolynomial_foldl_add (parts : List Poly) (acc : Poly) :
    toPolynomial (parts.foldl add acc) = toPolynomial acc + (parts.map toPolynomial).sum := by
  induction parts generalizing acc with
  | nil => simp
  | cons p parts ih => rw [List.foldl_cons, ih, toPolynomial_add, List.map_cons, List.sum_cons, add_assoc]

theorem toPolynomial_divLinear_vanishing {n i : Nat} (h : i < n) {j : Int}
    (hj : (j : ZMod scalarModulus) = node i) :
    toPolynomial (divLinear j (vanishing n)) = Lagrange.nodal ((Finset.range n).erase i) node := by
  have hmem := Finset.mem_range.mpr h
  have hroot : (toPolynomial (vanishing n)).eval (j : ZMod scalarModulus) = 0 := by
    rw [toPolynomial_vanishing, hj, Lagrange.eval_nodal_at_node hmem]
  have hexact := mul_toPolynomial_divLinear hroot
  rw [toPolynomial_vanishing, hj, Lagrange.nodal_eq_mul_nodal_erase hmem] at hexact
  exact mul_left_cancel₀ (X_sub_C_ne_zero _) hexact

/-- **Interpolation.** The coefficients are those of Lagrange's polynomial. -/
theorem toPolynomial_interpolate (values : List Int) :
    toPolynomial (interpolate values) = Lagrange.interpolate (Finset.range values.length) node
      fun i => ((values.getD i 0 : Int) : ZMod scalarModulus) := by
  -- term by term, in the form with weights and quotients of the nodal polynomial
  have hparts : (List.zipWith (fun y jd => scale (reduce (y * inverse jd.2))
      (divLinear jd.1 (vanishing values.length))) values
      ((domain values.length).zip (denominators values.length))).map toPolynomial =
      (List.range values.length).map fun i =>
        C (Lagrange.nodalWeight (Finset.range values.length) node i) *
          (Lagrange.nodal (Finset.range values.length) node / (X - C (node i))) *
          C ((values.getD i 0 : Int) : ZMod scalarModulus) := by
    apply List.ext_getElem
    · simp [length_domain, length_denominators]
    · intro i hi hi'
      have hlt : i < values.length := by simpa using hi'
      simp only [List.getElem_map, List.getElem_zipWith, List.getElem_zip, List.getElem_range,
        toPolynomial_scale, intCast_reduce, Int.cast_mul, intCast_inverse,
        intCast_getElem_denominators, List.getD_eq_getElem _ _ hlt]
      rw [toPolynomial_divLinear_vanishing hlt (intCast_getElem_domain _),
        Lagrange.nodal_erase_eq_nodal_div (Finset.mem_range.mpr hlt), Lagrange.nodalWeight,
        Finset.prod_inv_distrib, C_mul]
      ring
  rw [interpolate, toPolynomial_foldl_add, toPolynomial_zeros, zero_add, hparts, sum_map_range,
    Lagrange.interpolate_eq_nodalWeight_mul_nodal_div_X_sub_C]

theorem length_foldl_add {n : Nat} {parts : List Poly} (h : ∀ p ∈ parts, p.length = n) {acc : Poly}
    (hacc : acc.length = n) : (parts.foldl add acc).length = n := by
  induction parts generalizing acc with
  | nil => exact hacc
  | cons p parts ih =>
      refine ih (fun q hq => h q (List.mem_cons_of_mem _ hq)) ?_
      rw [length_add, hacc, h p List.mem_cons_self, max_self]

theorem reduced_foldl_add (parts : List Poly) {acc : Poly} (hacc : Reduced acc) :
    Reduced (parts.foldl add acc) := by
  induction parts generalizing acc with
  | nil => exact hacc
  | cons p parts ih => exact ih (reduced_add acc p)

theorem length_interpolate (values : List Int) : (interpolate values).length = values.length := by
  refine length_foldl_add (fun p hp => ?_) (length_zeros _)
  obtain ⟨i, hi, rfl⟩ := List.getElem_of_mem hp
  rw [List.getElem_zipWith, length_scale, length_divLinear, length_vanishing, Nat.add_sub_cancel]

/-! ## Basis values -/

/-- **Basis values.** Outside the domain there are basis values, and they are those of Lagrange's
basis polynomials. -/
theorem lagrange_eq {n : Nat} (hn : n < scalarModulus) {x : Int}
    (hx : ∀ i < n, (x : ZMod scalarModulus) ≠ node i) :
    ∃ basis, lagrange n x = .ok basis ∧ basis.length = n ∧ ∀ (i : Nat) (h : i < basis.length),
      ((basis[i] : Int) : ZMod scalarModulus) =
        (Lagrange.basis (Finset.range n) node i).eval (x : ZMod scalarModulus) := by
  refine ⟨((domain n).zip (denominators n)).map fun jd =>
    reduce (vanishingAt n x * inverse (reduce ((x - jd.1) * jd.2))), ?_, ?_, ?_⟩
  · apply mapM_eq_ok_map
    rintro ⟨j, d⟩ hmem
    obtain ⟨i, hi, heq⟩ := List.getElem_of_mem hmem
    rw [List.getElem_zip, Prod.mk.injEq] at heq
    obtain ⟨rfl, rfl⟩ := heq
    have hlt : i < n := by simpa [length_domain, length_denominators] using hi
    refine if_neg fun hzero => ?_
    have hcast := congrArg (Int.cast : Int → ZMod scalarModulus) hzero
    rw [Int.cast_zero, intCast_reduce, Int.cast_mul, Int.cast_sub, intCast_getElem_domain,
      intCast_getElem_denominators] at hcast
    exact mul_ne_zero (sub_ne_zero.mpr (hx i hlt)) (prod_node_sub_node_ne_zero hn hlt) hcast
  · simp [length_domain, length_denominators]
  · intro i hi
    have hlt : i < n := by simpa [length_domain, length_denominators] using hi
    simp only [List.getElem_map, List.getElem_zip, intCast_reduce, Int.cast_mul, intCast_inverse,
      Int.cast_sub, intCast_vanishingAt, intCast_getElem_domain, intCast_getElem_denominators]
    rw [Lagrange.eval_basis_not_at_node (Finset.mem_range.mpr hlt) (hx i hlt), Lagrange.nodalWeight,
      Finset.prod_inv_distrib, mul_inv]
    ring

end ArrowCircuit.Poly
