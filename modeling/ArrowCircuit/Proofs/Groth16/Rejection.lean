import ArrowCircuit.Proofs.Groth16.Completeness
import Mathlib.Data.Set.Card

/-!
# Rejection

The prover makes a proof for any full witness.  Whether it is accepted is decided by the remainder of
the division by the vanishing polynomial, which the prover drops: the verifier accepts exactly when it
vanishes at the trapdoor.  At a witness that violates a constraint the remainder is not zero, and its
degree is below the size of the domain, so only few trapdoors let the proof pass.
-/

namespace ArrowCircuit.Groth16

open Polynomial ArrowCircuit.Poly

/-! ## Roots of the remainder -/

theorem natDegree_remainder_lt {q : Qap} (hpos : 0 < q.size) (hb : q.b.length = q.size)
    (hc : q.c.length = q.size) {w : List Int} (hne : toPolynomial (quotient q w).2 ≠ 0) :
    (toPolynomial (quotient q w).2).natDegree < q.size := by
  have hdegree := degree_modByMonic_lt (defect q w)
    (Lagrange.nodal_monic (s := Finset.range q.size) (v := node))
  rw [Lagrange.degree_nodal, Finset.card_range, ← (quotient_spec hpos hb hc w).2.1] at hdegree
  exact (natDegree_lt_iff_degree_lt hne).mpr hdegree

/-- Numbers below the modulus are as many as their residues, so a polynomial has no more roots among
them than its degree. -/
theorem encard_le_natDegree {p : (ZMod scalarModulus)[X]} (hp : p ≠ 0) {A : Set Nat}
    (hlt : ∀ x ∈ A, x < scalarModulus) (hroot : ∀ x ∈ A, p.eval (x : ZMod scalarModulus) = 0) :
    A.encard ≤ p.natDegree := by
  have hinj : Set.InjOn (fun x : Nat => (x : ZMod scalarModulus)) A := by
    intro x hx y hy hxy
    have hval := congrArg ZMod.val hxy
    rwa [ZMod.val_natCast_of_lt (hlt x hx), ZMod.val_natCast_of_lt (hlt y hy)] at hval
  have hsub : (fun x : Nat => (x : ZMod scalarModulus)) '' A ⊆ ↑p.roots.toFinset := by
    rintro _ ⟨x, hx, rfl⟩
    rw [Finset.mem_coe, Multiset.mem_toFinset, mem_roots hp]
    exact hroot x hx
  calc A.encard = ((fun x : Nat => (x : ZMod scalarModulus)) '' A).encard := hinj.encard_image.symm
    _ ≤ (↑p.roots.toFinset : Set (ZMod scalarModulus)).encard := Set.encard_le_encard hsub
    _ = p.roots.toFinset.card := Set.encard_coe_eq_coe_finsetCard _
    _ ≤ p.natDegree := Nat.cast_le.mpr (p.roots.toFinset_card_le.trans (card_roots' p))

/-! ## What a run comes to -/

variable {s : ConstraintSystem} {q : Qap} {w : Assignment}
variable {S : PairingSuite} {G₁ G₂ : Type} [AddCommGroup G₁] [AddCommGroup G₂]

/-- The run from a trapdoor and a blinding ends with an accepted proof. -/
def RunAccepts (S : PairingSuite) (s : ConstraintSystem) (w : Assignment) (t : Trapdoor) (r u : Nat) :
    Prop :=
  ∃ keys data, setupWith S s t = .ok keys ∧ proveWith S keys.provingKey s w r u = .ok data ∧
    verify S keys.verifyingKey data.proof data.publicInputs = .ok true

section

variable (M₁ : S.curve.Models G₁) (M₂ : S.twist.Models G₂) (B : S.Bilinear M₁ M₂)
  (D : S.Nondegenerate) (hs : s.WellFormed) {t : Trapdoor}
  (ht : t.Admissible (s.constraints.length + 1 + s.publicInputs.length))
  (hfull : ∀ i < s.numWitnesses, (w.get? i).isSome) (hone : w.residue scalarModulus oneIndex = 1)
  (hqap : s.qap = .ok q)

include M₁ M₂ B D hs ht hfull hone hqap

/-- Under keys that setup makes, the verifier computes whether the remainder vanishes at the
trapdoor. -/
theorem verify_eq_decide_remainder {keys : KeyPair} (hkeys : setupWith S s t = .ok keys) (r u : Nat) :
    ∃ data, proveWith S keys.provingKey s w r u = .ok data ∧
      verify S keys.verifyingKey data.proof data.publicInputs =
        .ok (decide (Poly.eval (quotient q (values s w)).2 t.tau = 0)) := by
  obtain ⟨hn, hsize⟩ := (exists_setupWith_iff (PairingSuite.model₁ M₁) (PairingSuite.model₂ M₂) hs
    ht).mp ⟨keys, hkeys⟩
  obtain ⟨keys', data, q', hkeys', hprove, -, -, hqap', -, k, p, x, y, hverify, hk, hp, hgap⟩ :=
    run_eq (PairingSuite.model₁ M₁) (PairingSuite.model₂ M₂) hs hn hsize ht hfull hone r u
  obtain rfl : keys' = keys := Except.ok.inj (hkeys'.symm.trans hkeys)
  obtain rfl : q' = q := Except.ok.inj (hqap'.symm.trans hqap)
  refine ⟨data, hprove, ?_⟩
  rw [hverify, Except.ok.injEq, Bool.eq_iff_iff, accepts_iff_gap_eq_zero B hk hp D, hgap,
    decide_eq_true_iff, Poly.eval_eq_zero_iff, Int.cast_natCast]

theorem runAccepts_iff {r u : Nat} : RunAccepts S s w t r u ↔
    (∃ keys, setupWith S s t = .ok keys) ∧ Poly.eval (quotient q (values s w)).2 t.tau = 0 := by
  have hrun := fun keys (hkeys : setupWith S s t = .ok keys) =>
    verify_eq_decide_remainder M₁ M₂ B D hs ht hfull hone hqap hkeys r u
  constructor
  · rintro ⟨keys, data, hkeys, hdata, haccept⟩
    obtain ⟨data', hdata', hverify⟩ := hrun keys hkeys
    obtain rfl : data' = data := Except.ok.inj (hdata'.symm.trans hdata)
    exact ⟨⟨keys, hkeys⟩, of_decide_eq_true (Except.ok.inj (hverify.symm.trans haccept))⟩
  · rintro ⟨⟨keys, hkeys⟩, hzero⟩
    obtain ⟨data, hdata, hverify⟩ := hrun keys hkeys
    exact ⟨keys, data, hkeys, hdata, by rw [hverify, decide_eq_true hzero]⟩

end

theorem remainder_ne_zero (hs : s.WellFormed) (hq : s.IsQap q) (hn : q.size < scalarModulus)
    (hfull : ∀ i < s.numWitnesses, (w.get? i).isSome)
    (hviolated : ∃ c ∈ s.constraints, c.residual scalarModulus w ≠ .ok 0) :
    toPolynomial (quotient q (values s w)).2 ≠ 0 := by
  rw [Ne, remainder_eq_zero_iff_holds hs.rowsBelow hq hn,
    ← forall_residual_eq_zero_iff hs.rowsBelow hfull]
  obtain ⟨c, hc, hne⟩ := hviolated
  exact fun hsat => hne (hsat c hc)

/-- **Rejection.** A full witness that violates a constraint has a proof under every pair of keys, and
the verifier accepts it exactly when the remainder that the prover drops vanishes at the first secret
of the setup.  Whatever the other secrets and the blinding, that happens for fewer first secrets than
the domain has points. -/
theorem encard_accepting_trapdoors_le (M₁ : S.curve.Models G₁) (M₂ : S.twist.Models G₂)
    (B : S.Bilinear M₁ M₂) (D : S.Nondegenerate) (hs : s.WellFormed)
    (hsize : s.constraints.length + 1 + s.publicInputs.length < scalarModulus)
    (hfull : ∀ i < s.numWitnesses, (w.get? i).isSome) (hone : w.residue scalarModulus oneIndex = 1)
    (hviolated : ∃ c ∈ s.constraints, c.residual scalarModulus w ≠ .ok 0) (alpha beta : Nat)
    {gamma delta : Nat} (hgamma : (gamma : ZMod scalarModulus) ≠ 0)
    (hdelta : (delta : ZMod scalarModulus) ≠ 0) (r u : Nat) :
    ∃ q xs, s.qap = .ok q ∧ q.size = s.constraints.length + 1 + s.publicInputs.length ∧
      witnessValues s w = .ok xs ∧
      (∀ tau, q.size < tau → tau < scalarModulus →
        ((∃ keys, setupWith S s ⟨tau, alpha, beta, gamma, delta⟩ = .ok keys) ↔
          s.numWitnesses < 2 ^ 32 ∧ q.size < 2 ^ 32) ∧
        ∀ keys, setupWith S s ⟨tau, alpha, beta, gamma, delta⟩ = .ok keys →
          ∃ data, proveWith S keys.provingKey s w r u = .ok data ∧
            verify S keys.verifyingKey data.proof data.publicInputs =
              .ok (decide (Poly.eval (quotient q xs).2 tau = 0))) ∧
      {tau | q.size < tau ∧ tau < scalarModulus ∧
        RunAccepts S s w ⟨tau, alpha, beta, gamma, delta⟩ r u}.encard ≤ (q.size - 1 : Nat) := by
  obtain ⟨q, hqap, hq⟩ := hs.qap_eq
  have hcount := hq.size_eq
  rw [← hcount] at hsize
  have hpos : 0 < q.size := by omega
  have hadmissible : ∀ tau, q.size < tau → tau < scalarModulus →
      Trapdoor.Admissible ⟨tau, alpha, beta, gamma, delta⟩
        (s.constraints.length + 1 + s.publicInputs.length) := by
    intro tau hout hlt
    rw [← hcount]
    exact ⟨Trapdoor.tau_ne_of_bounds hout hlt, hgamma, hdelta⟩
  refine ⟨q, values s w, hqap, hcount, witnessValues_eq hfull, ?_, ?_⟩
  · intro tau hout hlt
    have ht := hadmissible tau hout hlt
    rw [hcount]
    exact ⟨exists_setupWith_iff (PairingSuite.model₁ M₁) (PairingSuite.model₂ M₂) hs ht,
      fun keys hkeys => verify_eq_decide_remainder M₁ M₂ B D hs ht hfull hone hqap hkeys r u⟩
  · have hne := remainder_ne_zero hs hq hsize hfull hviolated
    have hdegree := natDegree_remainder_lt hpos hq.length_b hq.length_c hne
    refine (encard_le_natDegree hne ?_ ?_).trans (Nat.cast_le.mpr (by omega))
    · exact fun tau htau => htau.2.1
    · rintro tau ⟨hout, hlt, haccept⟩
      have hzero := ((runAccepts_iff M₁ M₂ B D hs (hadmissible tau hout hlt) hfull hone hqap).mp
        haccept).2
      rw [Poly.eval_eq_zero_iff, Int.cast_natCast] at hzero
      exact hzero

/-- Three claimed as a square root of ten: of all first secrets at most two let it pass. -/
theorem encard_accepting_trapdoors_le_square :
    {tau | 3 < tau ∧ tau < scalarModulus ∧ RunAccepts Residues.suite squareSystem
      ⟨[(0, 1), (1, 3), (2, 10)]⟩ ⟨tau, 2, 3, 4, 6⟩ 7 8}.encard ≤ 2 := by
  obtain ⟨q, xs, -, hsize, -, -, hcard⟩ := encard_accepting_trapdoors_le (S := Residues.suite)
    (s := squareSystem) (w := ⟨[(0, 1), (1, 3), (2, 10)]⟩) (Residues.models Residues.base)
    (Residues.models Residues.extension) Residues.bilinear Residues.nondegenerate
    squareSystem_wellFormed (by decide) (by decide) Nat.cast_one (by decide) 2 3
    (natCast_ne_zero_of_bounds (n := 4) (by decide) (by decide))
    (natCast_ne_zero_of_bounds (n := 6) (by decide) (by decide)) 7 8
  rw [hsize] at hcard
  exact hcard

end ArrowCircuit.Groth16
