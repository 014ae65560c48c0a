import ArrowCircuit.Proofs.Curve.Residues
import ArrowCircuit.Proofs.Groth16.Run

/-!
# Completeness

At a witness that satisfies the constraints the division by the vanishing polynomial leaves nothing
over, so that the verification equation has no gap and the proof is accepted.
-/

namespace ArrowCircuit.Groth16

open Polynomial ArrowCircuit.Poly

variable {s : ConstraintSystem} {q : Qap} {w : Assignment}

/-! ## The rows of the program -/

theorem value_values {terms : LinearForm} (h : terms.Below s.numWitnesses) :
    terms.value (fun i => (((values s w).getD i 0 : Int) : ZMod scalarModulus)) =
      terms.value (w.residue scalarModulus) :=
  LinearForm.value_congr fun t ht => intCast_getD_values w (h t ht)

/-- The rows of the instance have an empty product and an empty right side, so they always hold. -/
theorem forall_mem_qapConstraints {f : Nat → ZMod scalarModulus} :
    (∀ c ∈ s.qapConstraints, c.Holds f) ↔ ∀ c ∈ s.constraints, c.Holds f := by
  refine ⟨fun h c hc => h c (List.mem_append_left _ hc), fun h c hc => ?_⟩
  rcases List.mem_append.mp hc with hc | hc
  · exact h c hc
  · obtain ⟨i, -, rfl⟩ := List.mem_map.mp hc
    rw [Constraint.Holds, LinearForm.value_nil, mul_zero]

theorem row_satisfied_iff (hs : s.RowsBelow) (hq : s.IsQap q) (hn : q.size < scalarModulus) {i : Nat}
    (hi : i < s.qapConstraints.length) :
    (side q.a (values s w)).eval (node i) * (side q.b (values s w)).eval (node i) =
      (side q.c (values s w)).eval (node i) ↔ s.qapConstraints[i].Holds (w.residue scalarModulus) := by
  have hia : i < q.a.length := hi.trans_eq hq.size_eq_length.symm
  have hib : i < q.b.length := hia.trans_eq hq.length_b.symm
  have hic : i < q.c.length := hia.trans_eq hq.length_c.symm
  have hrow := hs _ (List.getElem_mem hi)
  have hda := (List.forall₂_iff_get.mp hq.a).2 i hi hia
  have hdb := (List.forall₂_iff_get.mp hq.b).2 i hi hib
  have hdc := (List.forall₂_iff_get.mp hq.c).2 i hi hic
  simp only [List.get_eq_getElem] at hda hdb hdc
  rw [eval_side_node hn _ hia, eval_side_node (hq.length_b.trans_lt hn) _ hib,
    eval_side_node (hq.length_c.trans_lt hn) _ hic,
    hda.intCast_dot_eq _ (length_values s w), hdb.intCast_dot_eq _ (length_values s w),
    hdc.intCast_dot_eq _ (length_values s w), value_values hrow.1, value_values hrow.2.1,
    value_values hrow.2.2]
  rfl

/-- **The remainder.** Nothing is left over exactly at the witnesses that satisfy the constraints. -/
theorem remainder_eq_zero_iff_holds (hs : s.RowsBelow) (hq : s.IsQap q)
    (hn : q.size < scalarModulus) :
    toPolynomial (quotient q (values s w)).2 = 0 ↔
      ∀ c ∈ s.constraints, c.Holds (w.residue scalarModulus) := by
  have hpos : 0 < q.size := by
    rw [hq.size_eq]
    omega
  rw [remainder_eq_zero_iff hpos hq.length_b hq.length_c _ hn, ← forall_mem_qapConstraints,
    List.forall_mem_iff_forall_getElem, hq.size_eq_length]
  exact forall₂_congr fun i hi => row_satisfied_iff hs hq hn hi

/-- A full witness satisfies a constraint as it is checked exactly when the equation holds. -/
theorem forall_residual_eq_zero_iff (hs : s.RowsBelow)
    (hfull : ∀ i < s.numWitnesses, (w.get? i).isSome) :
    (∀ c ∈ s.constraints, c.residual scalarModulus w = .ok 0) ↔
      ∀ c ∈ s.constraints, c.Holds (w.residue scalarModulus) := by
  refine forall₂_congr fun c hc => ?_
  obtain ⟨ha, hb, hcc⟩ := hs c (List.mem_append_left _ hc)
  rw [Constraint.residual_eq_zero_iff]
  refine and_iff_right ⟨?_, ?_, ?_⟩
  · exact fun t ht => hfull _ (ha t ht)
  · exact fun t ht => hfull _ (hb t ht)
  · exact fun t ht => hfull _ (hcc t ht)

theorem remainder_eq_zero (hs : s.WellFormed) (hq : s.IsQap q) (hn : q.size < scalarModulus)
    (hsat : ∀ c ∈ s.constraints, c.residual scalarModulus w = .ok 0) :
    toPolynomial (quotient q (values s w)).2 = 0 :=
  (remainder_eq_zero_iff_holds hs.rowsBelow hq hn).mpr fun c hc =>
    (Constraint.residual_eq_zero_iff.mp (hsat c hc)).2

/-! ## Completeness -/

variable {S : PairingSuite} {G₁ G₂ : Type} [AddCommGroup G₁] [AddCommGroup G₂]

/-- **Completeness.** For a system whose sizes fit the header of a key, an admissible trapdoor and any
blinding, a full witness that satisfies the constraints has a proof of 256 bytes with the witness's
public values, in their order, and the verifier accepts it.  Setup and prover give these keys and this
proof whenever those are the numbers that they draw. -/
theorem verify_prove_setup (M₁ : S.curve.Models G₁) (M₂ : S.twist.Models G₂)
    (B : S.Bilinear M₁ M₂) (hs : s.WellFormed) (hn : s.numWitnesses < 2 ^ 32)
    (hsize : s.constraints.length + 1 + s.publicInputs.length < 2 ^ 32) {t : Trapdoor}
    (ht : t.Admissible (s.constraints.length + 1 + s.publicInputs.length)) (r u : Nat)
    (hfull : ∀ i < s.numWitnesses, (w.get? i).isSome) (hone : w.residue scalarModulus oneIndex = 1)
    (hsat : ∀ c ∈ s.constraints, c.residual scalarModulus w = .ok 0) :
    ∃ keys data, setupWith S s t = .ok keys ∧ proveWith S keys.provingKey s w r u = .ok data ∧
      (∀ e e', Trapdoor.draw (s.constraints.length + 1 + s.publicInputs.length) e = some (t, e') →
        setup S s e = .ok (keys, e')) ∧
      (∀ e e₁ e₂, PrimeField.scalar.random e = (r, e₁) → PrimeField.scalar.random e₁ = (u, e₂) →
        prove S keys.provingKey s w e = .ok (data, e₂)) ∧
      data.proof.length = 256 ∧
      List.Forall₂ (fun i v => ∃ z, w.get? i = some z ∧ v = publicText (z % scalarModulus) ∧
        Wire.publicValue v = .ok (z % scalarModulus)) s.publicInputs data.publicInputs ∧
      verify S keys.verifyingKey data.proof data.publicInputs = .ok true := by
  obtain ⟨keys, data, q, hsetup, hprove, hlen, hinputs, hqap, hq, k, p, x, y, hverify, hk, hp, hgap⟩ :=
    run_eq (PairingSuite.model₁ M₁) (PairingSuite.model₂ M₂) hs hn hsize ht hfull hone r u
  have hlt : q.size < scalarModulus := by
    rw [hq.size_eq]
    exact hsize.trans (by decide)
  rw [remainder_eq_zero hs hq hlt hsat, eval_zero] at hgap
  refine ⟨keys, data, hsetup, hprove, ?_, ?_, hlen, ?_, ?_⟩
  · rw [← hq.size_eq]
    exact fun e e' hdraw => setup_eq_of_draw hqap hdraw hsetup
  · exact fun e e₁ e₂ hr hu => prove_eq_of_draws hr hu hprove
  · rw [hinputs, List.forall₂_map_right_iff]
    refine List.forall₂_same.mpr fun i hi => ?_
    have hi := hs.indices_lt i (List.mem_cons_of_mem _ hi)
    obtain ⟨z, hz⟩ := Option.isSome_iff_exists.mp (hfull i hi)
    have hvalue : (values s w).getD i 0 = Poly.reduce z := by rw [getD_values w hi, hz, Option.getD_some]
    rw [hvalue]
    exact ⟨z, hz, rfl, (publicValue_publicText z).2⟩
  · rw [hverify, accepts_of_gap_eq_zero B hk hp hgap]

/-- The system of `x * x = y` with the square public. -/
def squareSystem : ConstraintSystem where
  numWitnesses := 3
  publicInputs := [2]
  privateInputs := [1]
  constraints := [⟨[⟨1, 1⟩], [⟨1, 1⟩], [⟨1, 2⟩]⟩]
  computations := []

theorem squareSystem_wellFormed : squareSystem.WellFormed := by
  refine ⟨?_, by decide, by decide⟩
  simp [squareSystem, LinearForm.Below]

theorem verify_prove_setup_square : ∃ keys data,
    setupWith Residues.suite squareSystem ⟨5, 2, 3, 4, 6⟩ = .ok keys ∧
      proveWith Residues.suite keys.provingKey squareSystem ⟨[(0, 1), (1, 3), (2, 9)]⟩ 7 8 = .ok data ∧
      data.proof.length = 256 ∧
      verify Residues.suite keys.verifyingKey data.proof data.publicInputs = .ok true := by
  obtain ⟨keys, data, hsetup, hprove, -, -, hlen, -, hverify⟩ :=
    verify_prove_setup (S := Residues.suite) (t := ⟨5, 2, 3, 4, 6⟩)
      (w := ⟨[(0, 1), (1, 3), (2, 9)]⟩) (Residues.models Residues.base)
      (Residues.models Residues.extension) Residues.bilinear squareSystem_wellFormed (by decide)
      (by decide)
      (Trapdoor.admissible_of_bounds (by decide) (by decide) (by decide) (by decide)) 7 8 (by decide)
      Nat.cast_one (by decide)
  exact ⟨keys, data, hsetup, hprove, hlen, hverify⟩

end ArrowCircuit.Groth16
