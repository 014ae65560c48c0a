import ArrowCircuit.Proofs.Groth16.Keys

/-!
# The verification equation

The numbers of a proof, from the numbers of the key: every index of the witness is either in the
instance, where the verifier adds it, or outside, where the prover does; the quotient makes up for
the difference `a * b - c`; and the blinding terms cancel.
-/

namespace ArrowCircuit.Groth16

open Polynomial ArrowCircuit.Poly

/-! ## Splitting the witness -/

theorem sum_instance_add_sum_secret {M : Type} [AddCommMonoid M] {n : Nat} {indices : List Nat}
    (hlt : ∀ i ∈ indices, i < n) (hnodup : indices.Nodup) (f : Nat → M) :
    (indices.map f).sum + ∑ i ∈ Finset.range n, (if i ∈ indices then 0 else f i) =
      ∑ i ∈ Finset.range n, f i := by
  have hinstance : (indices.map f).sum = ∑ i ∈ Finset.range n with i ∈ indices, f i := by
    rw [← List.sum_toFinset f hnodup]
    refine Finset.sum_congr (Finset.ext fun i => ?_) fun _ _ => rfl
    simp only [List.mem_toFinset, Finset.mem_filter, Finset.mem_range]
    exact ⟨fun h => ⟨hlt i h, h⟩, fun h => h.2⟩
  have hsecret : ∑ i ∈ Finset.range n, (if i ∈ indices then 0 else f i) =
      ∑ i ∈ Finset.range n with i ∉ indices, f i := by
    rw [Finset.sum_filter]
    refine Finset.sum_congr rfl fun i _ => ?_
    by_cases h : i ∈ indices
    · rw [if_pos h, if_neg (not_not.mpr h)]
    · rw [if_neg h, if_pos h]
  rw [hinstance, hsecret, Finset.sum_filter_add_sum_filter_not]

theorem intCast_dot_map (indices : List Nat) (f g : Nat → Int) :
    ((dot (indices.map f) (indices.map g) : Int) : ZMod scalarModulus) =
      (indices.map fun i => ((f i : Int) : ZMod scalarModulus) * g i).sum := by
  induction indices with
  | nil => simp [dot]
  | cons i indices ih =>
      rw [List.map_cons, List.map_cons, dot, Int.cast_add, ih, List.map_cons, List.sum_cons,
        Int.cast_mul]

theorem intCast_dot_powers (x z d : Int) (p : Poly) (power : Int) :
    ((dot ((powers x p.length power).map fun y => y * z * d) p : Int) : ZMod scalarModulus) =
      power * z * d * (toPolynomial p).eval (x : ZMod scalarModulus) := by
  induction p generalizing power with
  | nil => simp [powers, dot]
  | cons c p ih =>
      rw [List.length_cons, powers, List.map_cons, dot, Int.cast_add, ih, intCast_reduce,
        toPolynomial_cons, eval_add, eval_mul, eval_C, eval_X]
      push_cast
      ring

/-! ## The columns -/

/-- The rows of a side have an entry for every index of the witness. -/
theorem length_rows {n : Nat} {f : Constraint → LinearForm} {cs : List Constraint}
    {rows : List (List Int)} (h : List.Forall₂ (fun c row => IsDense n (f c) row) cs rows) :
    ∀ r ∈ rows, r.length = n := by
  induction h with
  | nil => exact nofun
  | cons hrow _ ih => exact List.forall_mem_cons.mpr ⟨hrow.length_eq, ih⟩

section

variable {n : Nat} {q : Qap} (ha : ∀ r ∈ q.a, r.length = n) (hb : ∀ r ∈ q.b, r.length = n)
  (hc : ∀ r ∈ q.c, r.length = n) (t : Trapdoor) (basis : List Int)

include ha hb hc

theorem length_mixedColumns : (mixedColumns n q t basis).length = n := by
  rw [mixedColumns, List.length_zipWith, List.length_zip, (columnSums_spec ha basis []).1,
    (columnSums_spec hb basis []).1, (columnSums_spec hc basis []).1, Nat.min_self, Nat.min_self]

theorem sum_mixedColumns {w : List Int} (hw : w.length = n) :
    ∑ i ∈ Finset.range n, (((mixedColumns n q t basis).getD i 0 : Int) : ZMod scalarModulus) *
        ((w.getD i 0 : Int) : ZMod scalarModulus) =
      t.beta * ((dot (columnSums n q.a basis) w : Int) : ZMod scalarModulus) +
        t.alpha * ((dot (columnSums n q.b basis) w : Int) : ZMod scalarModulus) +
        ((dot (columnSums n q.c basis) w : Int) : ZMod scalarModulus) := by
  have hla := (columnSums_spec ha basis []).1
  have hlb := (columnSums_spec hb basis []).1
  have hlc := (columnSums_spec hc basis []).1
  have hlk := length_mixedColumns ha hb hc t basis
  rw [intCast_dot hla hw, intCast_dot hlb hw, intCast_dot hlc hw, Finset.mul_sum, Finset.mul_sum,
    ← Finset.sum_add_distrib, ← Finset.sum_add_distrib]
  refine Finset.sum_congr rfl fun i hi => ?_
  have hi : i < n := Finset.mem_range.mp hi
  have hk : (((mixedColumns n q t basis).getD i 0 : Int) : ZMod scalarModulus) =
      t.beta * (((columnSums n q.a basis).getD i 0 : Int) : ZMod scalarModulus) +
        t.alpha * (((columnSums n q.b basis).getD i 0 : Int) : ZMod scalarModulus) +
        (((columnSums n q.c basis).getD i 0 : Int) : ZMod scalarModulus) := by
    rw [List.getD_eq_getElem _ _ (hi.trans_eq hlk.symm),
      List.getD_eq_getElem (columnSums n q.a basis) _ (hi.trans_eq hla.symm),
      List.getD_eq_getElem (columnSums n q.b basis) _ (hi.trans_eq hlb.symm),
      List.getD_eq_getElem (columnSums n q.c basis) _ (hi.trans_eq hlc.symm)]
    simp only [mixedColumns, List.getElem_zipWith, List.getElem_zip, intCast_reduce]
    push_cast
    rfl
  rw [hk]
  ring

end

/-- The points for the secret part, each with the inverse of `δ`. -/
theorem intCast_dot_secret {n : Nat} (indices : List Nat) {k w : List Int} (d : Int)
    (hk : k.length = n) (hw : w.length = n) :
    ((dot (k.zipIdx.map fun (x, i) => if indices.contains i then 0 else x * d)
        (secretValues indices w) : Int) : ZMod scalarModulus) =
      d * ∑ i ∈ Finset.range n, (if i ∈ indices then 0 else
        ((k.getD i 0 : Int) : ZMod scalarModulus) * ((w.getD i 0 : Int) : ZMod scalarModulus)) := by
  have hl : (k.zipIdx.map fun (x, i) => if indices.contains i then 0 else x * d).length = n := by
    rw [List.length_map, List.length_zipIdx, hk]
  have hs : (secretValues indices w).length = n := by
    rw [secretValues, List.length_map, List.length_zipIdx, hw]
  rw [intCast_dot hl hs, Finset.mul_sum]
  refine Finset.sum_congr rfl fun i hi => ?_
  have hi : i < n := Finset.mem_range.mp hi
  rw [List.getD_eq_getElem _ _ (hi.trans_eq hl.symm), List.getD_eq_getElem _ _ (hi.trans_eq hs.symm),
    List.getD_eq_getElem k _ (hi.trans_eq hk.symm), List.getD_eq_getElem w _ (hi.trans_eq hw.symm)]
  simp only [secretValues, List.getElem_map, List.getElem_zipIdx, Nat.zero_add, List.contains_iff_mem]
  split
  · simp
  · push_cast
    ring

/-! ## The equation -/

/-- The blinding terms cancel.  The instance contributes `i`, the secret part `p`, and the quotient
`h z`. -/
theorem blinded_equation {F : Type} [Field F] {α β γ δ a b c i p h z : F} (hγ : γ ≠ 0) (hδ : δ ≠ 0)
    (hsum : i + p = β * a + α * b + c) (r u : F) :
    (α + a + r * δ) * (β + b + u * δ) - (α * β + γ⁻¹ * i * γ +
      (δ⁻¹ * p + δ⁻¹ * (h * z) + ((α + a + r * δ) * u + (β + b + u * δ) * r) - r * u * δ) * δ) =
      a * b - c - h * z := by
  have hγ' := inv_mul_cancel₀ hγ
  have hδ' := inv_mul_cancel₀ hδ
  linear_combination -hsum - i * hγ' - (p + h * z) * hδ'

section

variable {s : ConstraintSystem} (hs : s.WellFormed) {q : Qap} {t : Trapdoor}
  (hgamma : (t.gamma : ZMod scalarModulus) ≠ 0) (hdelta : (t.delta : ZMod scalarModulus) ≠ 0)
  {basis w : List Int} (hw : w.length = s.numWitnesses)
  (hone : ((w.getD oneIndex 0 : Int) : ZMod scalarModulus) = 1)

include hs hgamma hdelta hw hone

/-- The gap, in the columns of the key, is the difference between `a b - c` and `h z`. -/
theorem gap_eq_columns (ha : ∀ r ∈ q.a, r.length = s.numWitnesses)
    (hb : ∀ r ∈ q.b, r.length = s.numWitnesses) (hc : ∀ r ∈ q.c, r.length = s.numWitnesses) {h : Poly}
    (hh : h.length = q.size - 1) (r u : Nat) :
    (keyNumbers s q t basis).gap ((keyNumbers s q t basis).proof s.instanceIndices w h r u)
        (s.publicInputs.map fun i => w.getD i 0) =
      ((dot (columnSums s.numWitnesses q.a basis) w : Int) : ZMod scalarModulus) *
          ((dot (columnSums s.numWitnesses q.b basis) w : Int) : ZMod scalarModulus) -
        ((dot (columnSums s.numWitnesses q.c basis) w : Int) : ZMod scalarModulus) -
        (toPolynomial h).eval (t.tau : ZMod scalarModulus) *
          ((vanishingAt q.size t.tau : Int) : ZMod scalarModulus) := by
  have hlk := length_mixedColumns ha hb hc t basis
  have hmixed := sum_mixedColumns ha hb hc t basis hw
  have hsplit := sum_instance_add_sum_secret hs.indices_lt hs.indices_nodup fun i =>
    (((mixedColumns s.numWitnesses q t basis).getD i 0 : Int) : ZMod scalarModulus) *
      ((w.getD i 0 : Int) : ZMod scalarModulus)
  -- the verifier's first point belongs to index zero, where the witness is one
  have hinstance : ∀ f : Nat → ZMod scalarModulus, (s.instanceIndices.map f).sum =
      f oneIndex + (s.publicInputs.map f).sum := fun f => List.sum_cons
  rw [hinstance, hone, mul_one, hmixed] at hsplit
  have hequation := blinded_equation (h := (toPolynomial h).eval (t.tau : ZMod scalarModulus))
    (z := ((vanishingAt q.size t.tau : Int) : ZMod scalarModulus)) hgamma hdelta hsplit r u
  -- what the verifier adds, what the prover adds, and the quotient
  have hpublic : ((dot (s.publicInputs.map fun i =>
        (mixedColumns s.numWitnesses q t basis).getD i 0 * Poly.inverse t.gamma)
      (s.publicInputs.map fun i => w.getD i 0) : Int) : ZMod scalarModulus) =
      (t.gamma : ZMod scalarModulus)⁻¹ * (s.publicInputs.map fun i =>
        (((mixedColumns s.numWitnesses q t basis).getD i 0 : Int) : ZMod scalarModulus) *
          ((w.getD i 0 : Int) : ZMod scalarModulus)).sum := by
    rw [intCast_dot_map, ← List.sum_map_mul_left]
    refine congrArg List.sum (List.map_congr_left fun i _ => ?_)
    rw [Int.cast_mul, intCast_inverse, Int.cast_natCast]
    ring
  have hsecret := intCast_dot_secret s.instanceIndices (Poly.inverse t.delta) hlk hw
  have hpowers := intCast_dot_powers t.tau (vanishingAt q.size t.tau) (Poly.inverse t.delta) h 1
  simp only [intCast_inverse, Int.cast_natCast] at hsecret
  simp only [hh, intCast_inverse, Int.cast_natCast, Int.cast_one, one_mul] at hpowers
  have hinputs : (keyNumbers s q t basis).inputs =
      (mixedColumns s.numWitnesses q t basis).getD oneIndex 0 * Poly.inverse t.gamma ::
        s.publicInputs.map fun i =>
          (mixedColumns s.numWitnesses q t basis).getD i 0 * Poly.inverse t.gamma := rfl
  rw [KeyNumbers.gap, hinputs, List.headD_cons, List.drop_succ_cons, List.drop_zero]
  simp only [KeyNumbers.proof, keyNumbers]
  push_cast
  rw [hpublic, hsecret, hpowers, intCast_inverse, Int.cast_natCast]
  linear_combination hequation

/-- **The verification equation.** In the numbers of an honest proof, the gap between its two sides is
the value at the trapdoor of the remainder that the prover drops. -/
theorem gap_eq_remainder (hq : s.IsQap q) (hlen : basis.length = q.size)
    (hbasis : ∀ (i : Nat) (h : i < basis.length), ((basis[i] : Int) : ZMod scalarModulus) =
      (Lagrange.basis (Finset.range q.size) node i).eval (t.tau : ZMod scalarModulus)) (r u : Nat) :
    (keyNumbers s q t basis).gap ((keyNumbers s q t basis).proof s.instanceIndices w
          (quotientCoefficients q.size (quotient q w).1) r u)
        (s.publicInputs.map fun i => w.getD i 0) =
      (toPolynomial (quotient q w).2).eval (t.tau : ZMod scalarModulus) := by
  have ha := length_rows hq.a
  have hb := length_rows hq.b
  have hc := length_rows hq.c
  have hpos : 0 < q.size := by
    rw [hq.size_eq]
    omega
  have hdefect := congrArg (eval (t.tau : ZMod scalarModulus)) (defect_eq hpos hq.length_b hq.length_c w)
  rw [defect, eval_sub, eval_mul, eval_add, eval_mul] at hdefect
  rw [gap_eq_columns hs hgamma hdelta hw hone ha hb hc (length_quotientCoefficients _ _) r u,
    intCast_dot_columnSums ha hlen hbasis,
    intCast_dot_columnSums hb (hlen.trans hq.length_b.symm) (by rw [hq.length_b]; exact hbasis),
    intCast_dot_columnSums hc (hlen.trans hq.length_c.symm) (by rw [hq.length_c]; exact hbasis),
    intCast_vanishingAt, Int.cast_natCast]
  linear_combination hdefect

end

end ArrowCircuit.Groth16
