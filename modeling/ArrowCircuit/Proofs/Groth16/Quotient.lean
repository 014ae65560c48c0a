import ArrowCircuit.Groth16.Prove
import ArrowCircuit.Proofs.Poly.Interpolation

/-!
# The polynomials of a witness

At a witness each side of a quadratic program has a value for every row, and the prover interpolates
these values.  What setup computes from the columns is the value of the same polynomial at the
trapdoor, and when the witness satisfies every row the vanishing polynomial divides `a * b - c`, so
that the coefficients of the quotient that the prover keeps are all there are.
-/

namespace ArrowCircuit.Groth16

open Polynomial ArrowCircuit.Poly

/-- The values of one side of the rows at a witness. -/
def sideValues (rows : List (List Int)) (w : List Int) : List Int :=
  rows.map fun r => Poly.reduce (dot r w)

theorem sideValues_cons (r : List Int) (rows : List (List Int)) (w : List Int) :
    sideValues (r :: rows) w = Poly.reduce (dot r w) :: sideValues rows w := rfl

/-- The polynomial of one side at a witness. -/
noncomputable def side (rows : List (List Int)) (w : List Int) : (ZMod scalarModulus)[X] :=
  toPolynomial (interpolate (sideValues rows w))

theorem length_sideValues (rows : List (List Int)) (w : List Int) :
    (sideValues rows w).length = rows.length := List.length_map _

theorem eval_side_node {rows : List (List Int)} (hn : rows.length < scalarModulus) (w : List Int)
    {i : Nat} (hi : i < rows.length) :
    (side rows w).eval (node i) = ((dot rows[i] w : Int) : ZMod scalarModulus) := by
  have hi' : i < (sideValues rows w).length := by rwa [length_sideValues]
  rw [side, eval_interpolate_node (by rwa [length_sideValues]) hi', List.getD_eq_getElem _ _ hi']
  simp only [sideValues, List.getElem_map, intCast_reduce]

/-! ## Setup and prover agree -/

theorem intCast_dot_zipWith (k : Int) {acc row : List Int} (h : acc.length = row.length)
    (w : List Int) :
    ((dot (List.zipWith (fun x y => Poly.reduce (x + k * y)) acc row) w : Int) :
        ZMod scalarModulus) = dot acc w + k * ((dot row w : Int) : ZMod scalarModulus) := by
  induction acc generalizing row w with
  | nil =>
      have hrow : row = [] := List.eq_nil_of_length_eq_zero h.symm
      simp [hrow, dot]
  | cons x acc ih =>
      obtain ⟨y, row, rfl⟩ : ∃ y rest, row = y :: rest :=
        List.exists_cons_of_ne_nil (List.ne_nil_of_length_eq_add_one h.symm)
      cases w with
      | nil => simp [dot]
      | cons v w =>
          rw [List.zipWith_cons_cons, dot, dot, dot, Int.cast_add, ih (by simpa using h), Int.cast_mul,
            intCast_reduce]
          push_cast
          ring

theorem columnSums_spec {n : Nat} {rows : List (List Int)} (hrows : ∀ r ∈ rows, r.length = n)
    (weights w : List Int) :
    (columnSums n rows weights).length = n ∧
      ((dot (columnSums n rows weights) w : Int) : ZMod scalarModulus) =
        dot weights (sideValues rows w) := by
  -- the induction is on the rows, for every partial sum
  have hfold : ∀ (weights acc : List Int), acc.length = n →
      ((rows.zip weights).foldl (fun acc rk =>
        List.zipWith (fun x y => Poly.reduce (x + rk.2 * y)) acc rk.1) acc).length = n ∧
      ((dot ((rows.zip weights).foldl (fun acc rk =>
        List.zipWith (fun x y => Poly.reduce (x + rk.2 * y)) acc rk.1) acc) w : Int) :
        ZMod scalarModulus) = dot acc w + ((dot weights (sideValues rows w) : Int) :
          ZMod scalarModulus) := by
    induction rows with
    | nil =>
        intro weights acc hacc
        refine ⟨hacc, ?_⟩
        cases weights <;> simp [sideValues, dot]
    | cons row rows ih =>
        intro weights acc hacc
        obtain ⟨hrow, hrows⟩ := List.forall_mem_cons.mp hrows
        cases weights with
        | nil =>
            refine ⟨hacc, ?_⟩
            simp [dot]
        | cons k weights =>
            have hlen : acc.length = row.length := hacc.trans hrow.symm
            obtain ⟨hl, hd⟩ := ih hrows weights
              (List.zipWith (fun x y => Poly.reduce (x + k * y)) acc row)
              (by rw [List.length_zipWith, hlen, Nat.min_self, hrow])
            refine ⟨hl, ?_⟩
            rw [List.zip_cons_cons, List.foldl_cons, hd, intCast_dot_zipWith k hlen, sideValues_cons,
              dot, Int.cast_add, Int.cast_mul, intCast_reduce]
            ring
  obtain ⟨hl, hd⟩ := hfold weights (List.replicate n 0) List.length_replicate
  refine ⟨hl, ?_⟩
  rw [columnSums, hd, dot_replicate_zero, Int.cast_zero, zero_add]

/-- **Agreement.** The weighted columns at a witness are the value of the interpolated polynomial at
the point of the weights. -/
theorem intCast_dot_columnSums {n : Nat} {rows : List (List Int)} (hrows : ∀ r ∈ rows, r.length = n)
    {basis : List Int} {x : ZMod scalarModulus} (hlen : basis.length = rows.length)
    (hbasis : ∀ (i : Nat) (h : i < basis.length), ((basis[i] : Int) : ZMod scalarModulus) =
      (Lagrange.basis (Finset.range rows.length) node i).eval x) (w : List Int) :
    ((dot (columnSums n rows basis) w : Int) : ZMod scalarModulus) = (side rows w).eval x := by
  rw [(columnSums_spec hrows basis w).2, side]
  refine intCast_dot_basis (by rwa [length_sideValues]) fun i hi => ?_
  rw [hbasis i hi, length_sideValues]

/-! ## The quotient -/

theorem nodal_dvd_iff {n : Nat} (hn : n < scalarModulus) {f : (ZMod scalarModulus)[X]} :
    Lagrange.nodal (Finset.range n) node ∣ f ↔ ∀ i < n, f.eval (node i) = 0 := by
  constructor
  · rintro ⟨g, rfl⟩ i hi
    rw [eval_mul, Lagrange.eval_nodal_at_node (Finset.mem_range.mpr hi), zero_mul]
  · intro h
    refine Finset.prod_dvd_of_coprime ?_ fun i hi => dvd_iff_isRoot.mpr (h i (Finset.mem_range.mp hi))
    intro i hi j hj hij
    refine isCoprime_X_sub_C_of_isUnit_sub (sub_ne_zero.mpr fun heq => ?_).isUnit
    exact hij (node_injOn hn hi hj heq)

/-- The polynomial `a * b - c` at a witness. -/
noncomputable def defect (q : Qap) (w : List Int) : (ZMod scalarModulus)[X] :=
  side q.a w * side q.b w - side q.c w

/-- The coefficients of `a * b - c` as the prover computes them. -/
def defectCoefficients (q : Qap) (w : List Int) : Poly :=
  subScaled 1 (Poly.mul (interpolate (sideValues q.a w)) (interpolate (sideValues q.b w)))
    (interpolate (sideValues q.c w))

theorem quotient_eq (q : Qap) (w : List Int) :
    quotient q w = (divMod? (defectCoefficients q w) (vanishing q.size)).getD ([], []) := rfl

theorem length_quotientCoefficients (size : Nat) (h : Poly) :
    (quotientCoefficients size h).length = size - 1 := by
  rw [quotientCoefficients, List.length_take, List.length_append, length_zeros]
  omega

variable {q : Qap} (hpos : 0 < q.size) (hb : q.b.length = q.size) (hc : q.c.length = q.size)
  (w : List Int)

include hb in
theorem length_defectCoefficients : (defectCoefficients q w).length = 2 * q.size - 1 := by
  rw [defectCoefficients, length_subScaled, length_mul, length_interpolate, length_interpolate,
    length_sideValues, length_sideValues, hb, Qap.size, Nat.two_mul]

include hpos hb hc

theorem toPolynomial_defectCoefficients : toPolynomial (defectCoefficients q w) = defect q w := by
  -- the product is long enough for all of `c` to be subtracted
  have hle : (interpolate (sideValues q.c w)).length ≤
      (Poly.mul (interpolate (sideValues q.a w)) (interpolate (sideValues q.b w))).length := by
    have hlen := length_defectCoefficients hb w
    rw [defectCoefficients, length_subScaled] at hlen
    rw [hlen, length_interpolate, length_sideValues, hc]
    omega
  rw [defectCoefficients, toPolynomial_subScaled 1 hle, toPolynomial_mul, Int.cast_one, C_1, one_mul]
  rfl

/-- The quotient and the remainder are those of `a * b - c` by the vanishing polynomial. -/
theorem quotient_spec :
    toPolynomial (quotient q w).1 = defect q w /ₘ Lagrange.nodal (Finset.range q.size) node ∧
      toPolynomial (quotient q w).2 = defect q w %ₘ Lagrange.nodal (Finset.range q.size) node ∧
      (quotient q w).1.length = max 1 (q.size - 1) ∧
      (defect q w).degree < ((2 * q.size - 1 : Nat) : WithBot ℕ) := by
  have hlen := length_defectCoefficients hb w
  have hpoly := toPolynomial_defectCoefficients hpos hb hc w
  obtain ⟨h, r, hdiv, hh, hr, hhlen⟩ :=
    divMod?_eq (endsInOne_vanishing q.size) (defectCoefficients q w)
  rw [quotient_eq, hdiv, Option.getD_some]
  rw [hpoly, toPolynomial_vanishing] at hh hr
  refine ⟨hh, hr, ?_, ?_⟩
  · rw [hhlen, hlen]
    congr 1
    omega
  · rw [← hpoly, ← hlen]
    exact degree_toPolynomial_lt _

/-- Nothing of the quotient is cut.  With more than one row it has exactly the length that is kept;
with one row it is zero. -/
theorem toPolynomial_quotientCoefficients :
    toPolynomial (quotientCoefficients q.size (quotient q w).1) =
      defect q w /ₘ Lagrange.nodal (Finset.range q.size) node := by
  obtain ⟨hquotient, -, hlen, hdegree⟩ := quotient_spec hpos hb hc w
  by_cases hone : q.size = 1
  · -- division puts a zero into the quotient, of which nothing is kept
    have hzero : defect q w /ₘ Lagrange.nodal (Finset.range q.size) node = 0 := by
      rw [divByMonic_eq_zero_iff Lagrange.nodal_monic, Lagrange.degree_nodal, Finset.card_range]
      refine hdegree.trans_le ?_
      rw [hone]
    rw [hzero, quotientCoefficients, hone, Nat.sub_self, List.take_zero, toPolynomial_nil]
  · have hkept : (quotient q w).1.length = q.size - 1 := by
      rw [hlen]
      omega
    rw [quotientCoefficients, List.take_left' hkept, hquotient]

/-- The kept coefficients and the remainder give back `a * b - c`. -/
theorem defect_eq :
    defect q w = toPolynomial (quotientCoefficients q.size (quotient q w).1) *
        Lagrange.nodal (Finset.range q.size) node + toPolynomial (quotient q w).2 := by
  rw [toPolynomial_quotientCoefficients hpos hb hc w, (quotient_spec hpos hb hc w).2.1, mul_comm,
    add_comm, modByMonic_add_div]

/-- **Divisibility.** There is no remainder exactly when every row is satisfied. -/
theorem remainder_eq_zero_iff (hn : q.size < scalarModulus) :
    toPolynomial (quotient q w).2 = 0 ↔ ∀ i < q.size,
      (side q.a w).eval (node i) * (side q.b w).eval (node i) = (side q.c w).eval (node i) := by
  rw [(quotient_spec hpos hb hc w).2.1, modByMonic_eq_zero_iff_dvd Lagrange.nodal_monic,
    nodal_dvd_iff hn]
  simp only [defect, eval_sub, eval_mul, sub_eq_zero]

end ArrowCircuit.Groth16
