import ArrowCircuit.Proofs.Groth16.Completeness

/-!
# Divisibility

What the prover divides are lists of coefficients, and so is what is left over.  The remainder holds
nothing but zeros exactly at the witnesses that satisfy the constraints, and then the coefficients of
the quotient for which a key has points give back `a * b - c`, coefficient by coefficient.  Nothing
more is asked of a system than that its terms lie below the witness: an index of the instance may be
named twice, and the domain may have a single point.
-/

namespace ArrowCircuit.Groth16

open Polynomial ArrowCircuit.Poly

/-! ## Lists of coefficients -/

theorem reduced_quotient (q : Qap) (w : List Int) :
    Reduced (quotient q w).1 ∧ Reduced (quotient q w).2 := by
  obtain ⟨h, r, hdiv, -⟩ := divMod?_eq (endsInOne_vanishing q.size) (defectCoefficients q w)
  rw [quotient_eq, hdiv, Option.getD_some]
  exact reduced_divMod? hdiv

variable {q : Qap} (hpos : 0 < q.size) (hb : q.b.length = q.size) (hc : q.c.length = q.size)
  (w : List Int)

include hpos hb hc

/-- What lies beyond the kept coefficients of the quotient is zero.  Only with a single row is there
anything: the zero that division by a longer divisor answers. -/
theorem eq_zero_of_mem_drop_quotient :
    ∀ c ∈ (quotient q w).1.drop (q.size - 1), c = 0 := by
  obtain ⟨hquotient, -, hlen, hdegree⟩ := quotient_spec hpos hb hc w
  by_cases hone : q.size = 1
  · have hzero : toPolynomial (quotient q w).1 = 0 := by
      rw [← toPolynomial_quotientCoefficients hpos hb hc w] at hquotient
      rw [hquotient, quotientCoefficients, hone, Nat.sub_self, List.take_zero, toPolynomial_nil]
    intro c hc
    exact (reduced_quotient q w).1.toPolynomial_eq_zero_iff.mp hzero c (List.mem_of_mem_drop hc)
  · have hnil : (quotient q w).1.drop (q.size - 1) = [] := by
      apply List.drop_eq_nil_of_le
      omega
    rw [hnil]
    exact fun c hc => absurd hc List.not_mem_nil

/-- Without a remainder, the kept coefficients times the vanishing polynomial are the coefficients of
`a * b - c`, in number too. -/
theorem mul_vanishing_eq (hzero : toPolynomial (quotient q w).2 = 0) :
    Poly.mul (quotientCoefficients q.size (quotient q w).1) (vanishing q.size) =
      defectCoefficients q w := by
  refine (reduced_mul _ _).eq_of_toPolynomial_eq (reduced_subScaled _ _ _) ?_ ?_
  · rw [length_mul, length_quotientCoefficients, length_vanishing, length_defectCoefficients hb w]
    omega
  · rw [toPolynomial_mul, toPolynomial_vanishing, toPolynomial_defectCoefficients hpos hb hc w,
      defect_eq hpos hb hc w, hzero, add_zero]

omit hpos hb hc

/-! ## Divisibility -/

variable {s : ConstraintSystem} {w : Assignment}

/-- **Divisibility.** For a system whose terms lie below the witness, with fewer rows than the field
has elements, and any full witness: the prover's matrices and values exist, and the remainder of
`a * b - c` by the vanishing polynomial holds nothing but zeros exactly when every constraint is
satisfied.  The coefficients of the quotient that are cut are zeros, and without a remainder those
that are kept, times the vanishing polynomial, are the coefficients of `a * b - c`. -/
theorem division_exact_iff_satisfied
    (hbelow : ∀ c ∈ s.constraints, c.a.Below s.numWitnesses ∧ c.b.Below s.numWitnesses ∧
      c.c.Below s.numWitnesses)
    (hindices : ∀ i ∈ s.instanceIndices, i < s.numWitnesses)
    (hsize : s.constraints.length + 1 + s.publicInputs.length < scalarModulus)
    (hfull : ∀ i < s.numWitnesses, (w.get? i).isSome) :
    ∃ q ws h rest, s.qap = .ok q ∧ witnessValues s w = .ok ws ∧
      q.size = s.constraints.length + 1 + s.publicInputs.length ∧
      divMod? (defectCoefficients q ws) (vanishing q.size) = some (h, rest) ∧
      quotient q ws = (h, rest) ∧
      ((∀ c ∈ rest, c = 0) ↔ ∀ c ∈ s.constraints, c.residual scalarModulus w = .ok 0) ∧
      (∀ c ∈ h.drop (q.size - 1), c = 0) ∧
      ((∀ c ∈ rest, c = 0) → Poly.mul (quotientCoefficients q.size h) (vanishing q.size) =
        defectCoefficients q ws) := by
  have hrows := ConstraintSystem.rowsBelow_of_below hbelow hindices
  obtain ⟨q, hqap, hq⟩ := hrows.qap_eq
  have hpos : 0 < q.size := by
    rw [hq.size_eq]
    omega
  have hzero := (reduced_quotient q (values s w)).2.toPolynomial_eq_zero_iff
  obtain ⟨h, rest, hdiv, -⟩ :=
    divMod?_eq (endsInOne_vanishing q.size) (defectCoefficients q (values s w))
  have hquotient : quotient q (values s w) = (h, rest) := by
    rw [quotient_eq, hdiv, Option.getD_some]
  have hcut := eq_zero_of_mem_drop_quotient hpos hq.length_b hq.length_c (values s w)
  have hexact := mul_vanishing_eq hpos hq.length_b hq.length_c (values s w)
  have hsatisfied := remainder_eq_zero_iff_holds (w := w) hrows hq (hq.size_eq.trans_lt hsize)
  rw [hquotient] at hzero hcut hexact hsatisfied
  refine ⟨q, values s w, h, rest, hqap, witnessValues_eq hfull, hq.size_eq, hdiv, hquotient, ?_, hcut,
    fun hrest => hexact (hzero.mpr hrest)⟩
  rw [forall_residual_eq_zero_iff hrows hfull, ← hsatisfied, hzero]

/-- The system of `-2 * x * x = y`, written with a repeated index and a negative coefficient, with `y`
public twice. -/
def doubledSystem : ConstraintSystem where
  numWitnesses := 3
  publicInputs := [2, 2]
  privateInputs := [1]
  constraints := [⟨[⟨1, 1⟩, ⟨-3, 1⟩], [⟨1, 1⟩], [⟨1, 2⟩]⟩]
  computations := []

theorem division_exact_iff_satisfied_doubled :
    (∃ q ws h rest, doubledSystem.qap = .ok q ∧
      witnessValues doubledSystem ⟨[(0, 1), (1, 3), (2, -18)]⟩ = .ok ws ∧
      quotient q ws = (h, rest) ∧ (∀ c ∈ rest, c = 0) ∧
      Poly.mul (quotientCoefficients 4 h) (vanishing 4) = defectCoefficients q ws) ∧
    ∃ q ws h rest, doubledSystem.qap = .ok q ∧
      witnessValues doubledSystem ⟨[(0, 1), (1, 3), (2, 18)]⟩ = .ok ws ∧
      quotient q ws = (h, rest) ∧ ¬ ∀ c ∈ rest, c = 0 := by
  have hbelow : ∀ c ∈ doubledSystem.constraints, c.a.Below doubledSystem.numWitnesses ∧
      c.b.Below doubledSystem.numWitnesses ∧ c.c.Below doubledSystem.numWitnesses := by
    simp [doubledSystem, LinearForm.Below]
  constructor
  · obtain ⟨q, ws, h, rest, hqap, hws, hsize, -, hquotient, hiff, -, hexact⟩ :=
      division_exact_iff_satisfied (s := doubledSystem) (w := ⟨[(0, 1), (1, 3), (2, -18)]⟩) hbelow
        (by decide) (by decide) (by decide)
    have hzero := hiff.mpr (by decide)
    have hexact := hexact hzero
    rw [show q.size = 4 from hsize] at hexact
    exact ⟨q, ws, h, rest, hqap, hws, hquotient, hzero, hexact⟩
  · obtain ⟨q, ws, h, rest, hqap, hws, -, -, hquotient, hiff, -, -⟩ :=
      division_exact_iff_satisfied (s := doubledSystem) (w := ⟨[(0, 1), (1, 3), (2, 18)]⟩) hbelow
        (by decide) (by decide) (by decide)
    refine ⟨q, ws, h, rest, hqap, hws, hquotient, fun hzero => ?_⟩
    exact absurd (hiff.mp hzero) (by decide)

end ArrowCircuit.Groth16
