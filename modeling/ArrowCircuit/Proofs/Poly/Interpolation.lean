import ArrowCircuit.Proofs.Constraint.Qap
import ArrowCircuit.Proofs.Poly.Domain

/-!
# The interpolated polynomial

On a domain of fewer points than the field has elements every denominator can be inverted, and
interpolation returns the one list of its length that has the given values (`eq_interpolate_iff`).
The basis values at a point outside the domain weight the same values to the polynomial's value there
(`lagrange_agrees_with_interpolate`).
-/

namespace ArrowCircuit.Poly

open Polynomial

/-! ## Inversions -/

theorem canonical_inverse (z : Int) : Canonical scalarModulus (inverse z) := by
  rw [inverse]
  split
  · exact canonical_zero
  · exact canonical_reduce _

/-- Inversion in the field succeeds where the residue is not zero, with the same result. -/
theorem scalar_inv_eq {z : Int} (h : (z : ZMod scalarModulus) ≠ 0) :
    PrimeField.scalar.inv z = .ok (inverse z) := by
  rw [PrimeField.scalar.inv_eq h, ← (canonical_inverse z).val_intCast, intCast_inverse]
  rfl

/-- No denominator of a domain of distinct points is zero. -/
theorem scalar_inv_denominator {n : Nat} (hn : n < scalarModulus) {d : Int}
    (hd : d ∈ denominators n) : PrimeField.scalar.inv d = .ok (inverse d) := by
  obtain ⟨i, hi, rfl⟩ := List.getElem_of_mem hd
  apply scalar_inv_eq
  rw [intCast_getElem_denominators]
  exact prod_node_sub_node_ne_zero hn (by rwa [length_denominators] at hi)

/-! ## Values on the domain -/

theorem reduced_interpolate (values : List Int) : Reduced (interpolate values) :=
  reduced_foldl_add _ (reduced_zeros _)

theorem eval_interpolate_node {values : List Int} (hlen : values.length < scalarModulus) {i : Nat}
    (hi : i < values.length) :
    (toPolynomial (interpolate values)).eval (node i) =
      ((values.getD i 0 : Int) : ZMod scalarModulus) := by
  rw [toPolynomial_interpolate,
    Lagrange.eval_interpolate_at_node _ (node_injOn hlen) (Finset.mem_range.mpr hi)]

/-- The list of values on the domain, as values of the polynomial at the points. -/
theorem map_eval_domain_eq_iff {p : Poly} {values : List Int} :
    (domain values.length).map p.eval = values.map reduce ↔
      ∀ i < values.length, (toPolynomial p).eval (node i) =
        ((values.getD i 0 : Int) : ZMod scalarModulus) := by
  -- at each point two reduced integers are compared, so that their residues decide
  have hpoint : ∀ (i : Nat) (hi : i < values.length) (hi' : i < (domain values.length).length),
      p.eval (domain values.length)[i] = reduce values[i] ↔
        (toPolynomial p).eval (node i) = ((values.getD i 0 : Int) : ZMod scalarModulus) := by
    intro i hi hi'
    rw [(canonical_eval _ _).eq_iff (canonical_reduce _), intCast_eval, intCast_getElem_domain,
      intCast_reduce, List.getD_eq_getElem _ _ hi]
  constructor
  · intro h i hi
    have hi' : i < (domain values.length).length := by rwa [length_domain]
    refine (hpoint i hi hi').mp ?_
    have hget := congrArg (fun l => l[i]?) h
    simpa only [List.getElem?_map, List.getElem?_eq_getElem hi, List.getElem?_eq_getElem hi',
      Option.map_some, Option.some.injEq] using hget
  · intro h
    refine List.ext_getElem (by simp only [List.length_map, length_domain]) fun i hi hi' => ?_
    rw [List.length_map] at hi hi'
    rw [List.getElem_map, List.getElem_map]
    exact (hpoint i hi' hi).mpr (h i hi')

/-- **Interpolation.** For fewer values than the field has elements, every denominator has an inverse,
and the interpolated polynomial is the one list of so many reduced coefficients that takes the values
at the points of the domain. -/
theorem eq_interpolate_iff (values : List Int) (hlen : values.length < scalarModulus) :
    (∀ d ∈ denominators values.length, PrimeField.scalar.inv d = .ok (inverse d)) ∧
      ∀ p : Poly, p = interpolate values ↔ p.length = values.length ∧ Reduced p ∧
        (domain values.length).map p.eval = values.map reduce := by
  refine ⟨fun d hd => scalar_inv_denominator hlen hd, fun p => ⟨?_, ?_⟩⟩
  · rintro rfl
    exact ⟨length_interpolate values, reduced_interpolate values,
      map_eval_domain_eq_iff.mpr fun i hi => eval_interpolate_node hlen hi⟩
  · rintro ⟨hlength, hreduced, hvalues⟩
    refine hreduced.eq_of_toPolynomial_eq (reduced_interpolate values)
      (hlength.trans (length_interpolate values).symm) ?_
    rw [toPolynomial_interpolate]
    -- both have fewer coefficients than there are points on which they agree
    refine Lagrange.eq_interpolate_of_eval_eq _ (node_injOn hlen) ?_ fun i hi =>
      map_eval_domain_eq_iff.mp hvalues i (Finset.mem_range.mp hi)
    rw [Finset.card_range, ← hlength]
    exact degree_toPolynomial_lt p

/-- The polynomial `X² - 2 X` from its values at `1, 2, 3`, two of which are not reduced. -/
theorem eq_interpolate_unreduced :
    ([0, scalarModulus - 2, 1] : Poly) = interpolate [-1, 0, 2 * scalarModulus + 3] :=
  ((eq_interpolate_iff [-1, 0, 2 * scalarModulus + 3] (by decide)).2 _).mpr
    ⟨rfl, by decide, by decide⟩

/-! ## Values outside -/

/-- Values weighted by those of the basis polynomials at a point. -/
theorem intCast_dot_basis {values basis : List Int} {x : ZMod scalarModulus}
    (hlen : basis.length = values.length)
    (hbasis : ∀ (i : Nat) (h : i < basis.length), ((basis[i] : Int) : ZMod scalarModulus) =
      (Lagrange.basis (Finset.range values.length) node i).eval x) :
    ((dot basis values : Int) : ZMod scalarModulus) = (toPolynomial (interpolate values)).eval x := by
  rw [intCast_dot hlen rfl, toPolynomial_interpolate, Lagrange.interpolate_apply, eval_finsetSum]
  refine Finset.sum_congr rfl fun i hi => ?_
  have hi' : i < basis.length := by rwa [hlen, ← Finset.mem_range]
  rw [List.getD_eq_getElem _ _ hi', hbasis i hi', eval_mul, eval_C, mul_comm]

theorem intCast_ne_node {n : Nat} (hn : n < scalarModulus) {x : Int} (hx : reduce x ∉ domain n) :
    ∀ i < n, (x : ZMod scalarModulus) ≠ node i := by
  intro i hi heq
  -- the points of the domain are their own representatives
  have hcanonical : Canonical scalarModulus (Int.ofNat i + 1) := ⟨by simp; omega, by simp; omega⟩
  refine hx (List.mem_map.mpr ⟨i, List.mem_range.mpr hi, ?_⟩)
  rw [hcanonical.eq_iff (canonical_reduce x), intCast_reduce, heq, node]
  push_cast
  rfl

/-- **Basis and interpolation.** At a point whose residue is not in a domain that is smaller than the
field there are basis values, and values on the domain weighted by them are congruent to the value of
the interpolated polynomial at the point. -/
theorem lagrange_agrees_with_interpolate (n : Nat) (hn : n < scalarModulus) (x : Int)
    (hx : reduce x ∉ domain n) (values : List Int) (hlen : values.length = n) :
    ∃ basis, lagrange n x = .ok basis ∧ basis.length = n ∧
      reduce (dot basis values) = eval (interpolate values) x := by
  subst hlen
  obtain ⟨basis, hbasis, hlength, hvalue⟩ := lagrange_eq hn (intCast_ne_node hn hx)
  refine ⟨basis, hbasis, hlength, ?_⟩
  rw [(canonical_reduce _).eq_iff (canonical_eval _ _), intCast_reduce,
    intCast_dot_basis hlength hvalue, intCast_eval]

/-- The polynomial `X² - 2 X` from its values at `1, 2, 3` has the value `3` at `-1`. -/
theorem lagrange_agrees_outside :
    reduce (-1) ∉ domain 3 ∧ ∃ basis, lagrange 3 (-1) = .ok basis ∧ basis.length = 3 ∧
      reduce (dot basis [-1, 0, 2 * scalarModulus + 3]) = 3 := by
  have hx : reduce (-1) ∉ domain 3 := by decide
  obtain ⟨basis, hbasis, hlength, hvalue⟩ :=
    lagrange_agrees_with_interpolate 3 (by decide) (-1) hx [-1, 0, 2 * scalarModulus + 3] rfl
  exact ⟨hx, basis, hbasis, hlength, hvalue.trans (by decide +kernel)⟩

end ArrowCircuit.Poly
