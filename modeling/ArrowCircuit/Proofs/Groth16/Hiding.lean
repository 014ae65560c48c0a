import ArrowCircuit.Proofs.Groth16.Completeness
import Mathlib.Probability.Distributions.Uniform

/-!
# Witness hiding

The blinding moves the first two points of a proof by arbitrary multiples of `δ`, and the verification
equation leaves no choice for the third.  Two witnesses with the same public values therefore have
the same proofs: a change of witness is made up for by shifting the blinding, and a shift permutes the
blindings.
-/

namespace ArrowCircuit

open ArrowCircuit.Poly Groth16

/-! ## Shifted blindings -/

/-- The number below the modulus with a given residue. -/
def ofResidue (x : ZMod scalarModulus) : Fin scalarModulus := ⟨x.val, x.val_lt⟩

theorem natCast_ofResidue (x : ZMod scalarModulus) :
    ((ofResidue x : Nat) : ZMod scalarModulus) = x :=
  ZMod.natCast_zmod_val x

theorem ofResidue_natCast (i : Fin scalarModulus) : ofResidue ((i : Nat) : ZMod scalarModulus) = i :=
  Fin.ext (ZMod.val_natCast_of_lt i.isLt)

/-- Addition of a residue, on the numbers below the modulus. -/
def shift (d : ZMod scalarModulus) : Equiv.Perm (Fin scalarModulus) where
  toFun i := ofResidue ((i : Nat) + d)
  invFun i := ofResidue ((i : Nat) - d)
  left_inv i := by
    dsimp only
    rw [natCast_ofResidue, add_sub_cancel_right, ofResidue_natCast]
  right_inv i := by
    dsimp only
    rw [natCast_ofResidue, sub_add_cancel, ofResidue_natCast]

theorem natCast_shift (d : ZMod scalarModulus) (i : Fin scalarModulus) :
    ((shift d i : Nat) : ZMod scalarModulus) = (i : Nat) + d :=
  natCast_ofResidue _

/-- A permutation keeps the uniform distribution. -/
theorem map_perm_uniformOfFintype {α : Type} [Fintype α] [Nonempty α] (f : Equiv.Perm α) :
    (PMF.uniformOfFintype α).map f = PMF.uniformOfFintype α := by
  ext b
  rw [PMF.map_apply, tsum_eq_single (f.symm b)]
  · rw [f.apply_symm_apply, if_pos rfl, PMF.uniformOfFintype_apply, PMF.uniformOfFintype_apply]
  · intro a ha
    exact if_neg fun hb => ha (f.eq_symm_apply.mpr hb.symm)

/-! ## Proofs of the same numbers -/

/-- The numbers of two proofs have the same residues. -/
structure Groth16.ProofNumbers.Congruent (y y' : ProofNumbers) : Prop where
  a : (y.a : ZMod scalarModulus) = y'.a
  b : (y.b : ZMod scalarModulus) = y'.b
  c : (y.c : ZMod scalarModulus) = y'.c

section

variable {S : PairingSuite} {G₁ G₂ : Type} [AddCommGroup G₁] [AddCommGroup G₂]
  {M₁ : S.curve.Models G₁} {M₂ : S.twist.Models G₂} {p p' : Proof S}

theorem Proof.Same.encode_eq (h : p.Same (PairingSuite.model₁ M₁) (PairingSuite.model₂ M₂) p') :
    p.encode = p'.encode := by
  have ha : S.g1.encode p.a = S.g1.encode p'.a := M₁.encode_eq_of_element h.a.1 h.a.2.1 h.a.2.2
  have hb : S.g2.encode p.b = S.g2.encode p'.b := M₂.encode_eq_of_element h.b.1 h.b.2.1 h.b.2.2
  have hc : S.g1.encode p.c = S.g1.encode p'.c := M₁.encode_eq_of_element h.c.1 h.c.2.1 h.c.2.2
  rw [Proof.encode, Proof.encode, ha, hb, hc]

theorem Proof.Stands.encode_eq {y y' : ProofNumbers}
    (hp : p.Stands (PairingSuite.model₁ M₁) (PairingSuite.model₂ M₂) y)
    (hp' : p'.Stands (PairingSuite.model₁ M₁) (PairingSuite.model₂ M₂) y') (h : y.Congruent y') :
    p.encode = p'.encode :=
  Proof.Same.encode_eq ⟨hp.a.same hp'.a h.a, hp.b.same hp'.b h.b, hp.c.same hp'.c h.c⟩

end

namespace Groth16

/-- With the first two numbers and the gap, the third number of a proof is given. -/
theorem KeyNumbers.congruent_of_gap_eq {x : KeyNumbers} {y y' : ProofNumbers} {inputs : List Int}
    (hdelta : (x.delta : ZMod scalarModulus) ≠ 0) (ha : (y.a : ZMod scalarModulus) = y'.a)
    (hb : (y.b : ZMod scalarModulus) = y'.b) (hgap : x.gap y inputs = x.gap y' inputs) :
    y.Congruent y' := by
  refine ⟨ha, hb, mul_right_cancel₀ hdelta ?_⟩
  rw [gap, gap, ha, hb] at hgap
  exact add_left_cancel (sub_right_injective hgap)

/-! ## A change of witness -/

/-- A value for every index, one at the first, such that the constraints are satisfied. -/
structure IsWitness (s : ConstraintSystem) (w : Assignment) : Prop where
  full : ∀ i < s.numWitnesses, (w.get? i).isSome
  one : w.residue scalarModulus oneIndex = 1
  satisfied : ∀ c ∈ s.constraints, c.residual scalarModulus w = .ok 0

variable {s : ConstraintSystem} {q : Qap} {w v : Assignment}

/-- Public values that agree are reduced to the same numbers. -/
theorem map_publicInputs_eq {α : Type} (g : Int → α) (hs : s.WellFormed)
    (hpublic : ∀ i ∈ s.publicInputs, w.residue scalarModulus i = v.residue scalarModulus i) :
    (s.publicInputs.map fun i => g ((values s w).getD i 0)) =
      s.publicInputs.map fun i => g ((values s v).getD i 0) := by
  refine List.map_congr_left fun i hi => congrArg g ?_
  have hlt := hs.indices_lt i (List.mem_cons_of_mem _ hi)
  rw [getD_values w hlt, getD_values v hlt]
  exact (ZMod.intCast_eq_intCast_iff _ _ _).mp (hpublic i hi)

variable {t : Trapdoor} {basis : List Int}

variable (s q t basis) in
/-- The numbers of the proof for a witness. -/
def witnessProof (w : Assignment) (r u : Nat) : ProofNumbers :=
  (keyNumbers s q t basis).proof s.instanceIndices (values s w)
    (quotientCoefficients q.size (quotient q (values s w)).1) r u

variable (s t) in
/-- By how much the blinding of a proof for `v` is to exceed that of one for `w`, in view of a column
sum of the key. -/
def blindingShift (column : List Int) (w v : Assignment) : ZMod scalarModulus :=
  (((dot column (values s w) : Int) : ZMod scalarModulus) - (dot column (values s v) : Int)) / t.delta

theorem blinded_eq (hdelta : (t.delta : ZMod scalarModulus) ≠ 0) (column : List Int) (c : Int)
    (r : Fin scalarModulus) :
    ((c + dot column (values s w) + (r : Nat) * (t.delta : Nat) : Int) : ZMod scalarModulus) =
      (c + dot column (values s v) +
        (shift (blindingShift s t column w v) r : Nat) * (t.delta : Nat) : Int) := by
  have hshift := div_mul_cancel₀ (((dot column (values s w) : Int) : ZMod scalarModulus) -
    (dot column (values s v) : Int)) hdelta
  push_cast
  rw [natCast_shift, add_mul, blindingShift, hshift]
  ring

section

variable (hs : s.WellFormed) (hq : s.IsQap q) (hn : q.size < scalarModulus)
  (hgamma : (t.gamma : ZMod scalarModulus) ≠ 0) (hdelta : (t.delta : ZMod scalarModulus) ≠ 0)
  (hlen : basis.length = q.size)
  (hbasis : ∀ (i : Nat) (h : i < basis.length), ((basis[i] : Int) : ZMod scalarModulus) =
    (Lagrange.basis (Finset.range q.size) node i).eval (t.tau : ZMod scalarModulus))

include hs hq hn hgamma hdelta hlen hbasis

theorem gap_witnessProof (hw : IsWitness s w) (r u : Nat) :
    (keyNumbers s q t basis).gap (witnessProof s q t basis w r u)
      (s.publicInputs.map fun i => (values s w).getD i 0) = 0 := by
  have hzero : oneIndex < s.numWitnesses := hs.indices_lt oneIndex List.mem_cons_self
  have hone := (intCast_getD_values w hzero).trans hw.one
  rw [witnessProof, gap_eq_remainder hs hgamma hdelta (length_values s w) hone hq hlen hbasis,
    remainder_eq_zero hs hq hn hw.satisfied, Polynomial.eval_zero]

/-- **Shifted blindings.** A shift of the blinding turns the proof for one witness into the proof for
another that has the same public values. -/
theorem witnessProof_shift (hw : IsWitness s w) (hv : IsWitness s v)
    (hpublic : ∀ i ∈ s.publicInputs, w.residue scalarModulus i = v.residue scalarModulus i)
    (r u : Fin scalarModulus) :
    (witnessProof s q t basis w r u).Congruent (witnessProof s q t basis v
      (shift (blindingShift s t (columnSums s.numWitnesses q.a basis) w v) r)
      (shift (blindingShift s t (columnSums s.numWitnesses q.b basis) w v) u)) := by
  have hinputs := map_publicInputs_eq id hs hpublic
  -- neither equation has a gap, and both are for the same public values
  have hgap : ∀ r' u', (keyNumbers s q t basis).gap (witnessProof s q t basis w r u)
        (s.publicInputs.map fun i => (values s w).getD i 0) =
      (keyNumbers s q t basis).gap (witnessProof s q t basis v r' u')
        (s.publicInputs.map fun i => (values s w).getD i 0) := by
    intro r' u'
    rw [gap_witnessProof hs hq hn hgamma hdelta hlen hbasis hw]
    refine (gap_witnessProof hs hq hn hgamma hdelta hlen hbasis hv r' u').symm.trans ?_
    exact congrArg _ hinputs.symm
  have hx : ((keyNumbers s q t basis).delta : ZMod scalarModulus) ≠ 0 := by
    rw [keyNumbers, Int.cast_natCast]
    exact hdelta
  exact KeyNumbers.congruent_of_gap_eq hx (blinded_eq hdelta _ t.alpha r) (blinded_eq hdelta _ t.beta u)
    (hgap _ _)

end

/-! ## Hiding -/

variable {S : PairingSuite} {G₁ G₂ : Type} [AddCommGroup G₁] [AddCommGroup G₂]

/-- Under the keys of an admissible trapdoor. -/
theorem exists_perm_of_admissible (M₁ : S.curve.Models G₁) (M₂ : S.twist.Models G₂)
    (hs : s.WellFormed) (ht : t.Admissible (s.constraints.length + 1 + s.publicInputs.length))
    {keys : KeyPair} (hkeys : setupWith S s t = .ok keys) (hw : IsWitness s w) (hv : IsWitness s v)
    (hpublic : ∀ i ∈ s.publicInputs, w.residue scalarModulus i = v.residue scalarModulus i) :
    ∃ f : Equiv.Perm (Fin scalarModulus × Fin scalarModulus), ∀ b, ∃ data,
      proveWith S keys.provingKey s w b.1 b.2 = .ok data ∧
      proveWith S keys.provingKey s v (f b).1 (f b).2 = .ok data := by
  obtain ⟨hn, hsize⟩ := (exists_setupWith_iff (PairingSuite.model₁ M₁) (PairingSuite.model₂ M₂) hs
    ht).mp ⟨keys, hkeys⟩
  obtain ⟨keys', q, basis, pk, -, hkeys', hqap, hq, hlen, hbasis, hdpk, hpk, hkn, hkd, hki, -, -⟩ :=
    setupWith_eq (PairingSuite.model₁ M₁) (PairingSuite.model₂ M₂) hs hn hsize ht
  obtain rfl : keys' = keys := Except.ok.inj (hkeys'.symm.trans hkeys)
  have hlt : q.size < scalarModulus := by
    rw [hq.size_eq]
    exact hsize.trans (by decide)
  refine ⟨(shift (blindingShift s t (columnSums s.numWitnesses q.a basis) w v)).prodCongr
    (shift (blindingShift s t (columnSums s.numWitnesses q.b basis) w v)), fun b => ⟨_,
    proveWith_eq hdpk hkn hki hqap hkd hs hw.full b.1 b.2, ?_⟩⟩
  have hshift := witnessProof_shift hs hq hlt ht.gamma_ne_zero ht.delta_ne_zero hlen hbasis hw hv
    hpublic b.1 b.2
  have hpoints := fun z (r u : Nat) => proofPoints_stands hpk (values s z)
    (quotientCoefficients q.size (quotient q (values s z)).1) r u
  rw [hki] at hpoints
  rw [proveWith_eq hdpk hkn hki hqap hkd hs hv.full, map_publicInputs_eq publicText hs hpublic]
  have hbytes := (hpoints w b.1 b.2).encode_eq (hpoints v _ _) hshift
  rw [hbytes]
  rfl

/-- **Witness hiding.** Under every proving key that setup makes, two satisfying witnesses with the
same public values have the same proofs: a permutation of the blindings takes each blinding for the
one to a blinding for the other that gives the same bytes and the same public texts.  So with a
blinding drawn uniformly, what the prover returns is distributed in the same way for both. -/
theorem exists_perm_proveWith_eq (M₁ : S.curve.Models G₁) (M₂ : S.twist.Models G₂)
    (hs : s.WellFormed) {e e' : Entropy} {keys : KeyPair} (hsetup : setup S s e = .ok (keys, e'))
    (hw : IsWitness s w) (hv : IsWitness s v)
    (hpublic : ∀ i ∈ s.publicInputs, w.residue scalarModulus i = v.residue scalarModulus i) :
    (∃ f : Equiv.Perm (Fin scalarModulus × Fin scalarModulus), ∀ b, ∃ data,
      proveWith S keys.provingKey s w b.1 b.2 = .ok data ∧
      proveWith S keys.provingKey s v (f b).1 (f b).2 = .ok data) ∧
    (PMF.uniformOfFintype (Fin scalarModulus × Fin scalarModulus)).map
        (fun b => proveWith S keys.provingKey s w b.1 b.2) =
      (PMF.uniformOfFintype (Fin scalarModulus × Fin scalarModulus)).map
        (fun b => proveWith S keys.provingKey s v b.1 b.2) := by
  obtain ⟨q, hqap, hq⟩ := hs.qap_eq
  obtain ⟨t, hdraw, hkeys⟩ := exists_draw_of_setup hqap hsetup
  have ht := Trapdoor.admissible_of_draw hdraw
  rw [hq.size_eq] at ht
  obtain ⟨f, hf⟩ := exists_perm_of_admissible M₁ M₂ hs ht hkeys hw hv hpublic
  refine ⟨⟨f, hf⟩, ?_⟩
  have hcomp : (fun b : Fin scalarModulus × Fin scalarModulus =>
      proveWith S keys.provingKey s w b.1 b.2) =
      (fun b => proveWith S keys.provingKey s v b.1 b.2) ∘ f := by
    funext b
    obtain ⟨data, hdata, hdata'⟩ := hf b
    exact hdata.trans hdata'.symm
  rw [hcomp, ← PMF.map_comp, map_perm_uniformOfFintype]

theorem exists_setup_square : ∃ keys e',
    setup Residues.suite squareSystem (Entropy.cycle [10]) = .ok (keys, e') := by
  obtain ⟨q, hqap, hq⟩ := squareSystem_wellFormed.qap_eq
  obtain ⟨e', hdraw⟩ : ∃ e', Trapdoor.draw 3 (Entropy.cycle [10]) = some (⟨11, 11, 11, 11, 11⟩, e') :=
    ⟨_, rfl⟩
  obtain ⟨keys, hkeys⟩ := (exists_setupWith_iff (S := Residues.suite) (t := ⟨11, 11, 11, 11, 11⟩)
    (PairingSuite.model₁ (Residues.models Residues.base))
    (PairingSuite.model₂ (Residues.models Residues.extension)) squareSystem_wellFormed
    (Trapdoor.admissible_of_draw hdraw)).mpr (by decide)
  have hsize : q.size = 3 := hq.size_eq
  exact ⟨keys, e', setup_eq_of_draw hqap (hsize ▸ hdraw) hkeys⟩

/-- From the proof that nine is a square it cannot be told whether the root was three or its
negative. -/
theorem exists_perm_proveWith_eq_square : ∃ keys e',
    setup Residues.suite squareSystem (Entropy.cycle [10]) = .ok (keys, e') ∧
    (∃ f : Equiv.Perm (Fin scalarModulus × Fin scalarModulus), ∀ b, ∃ data,
      proveWith Residues.suite keys.provingKey squareSystem ⟨[(0, 1), (1, 3), (2, 9)]⟩ b.1 b.2 =
        .ok data ∧
      proveWith Residues.suite keys.provingKey squareSystem ⟨[(0, 1), (1, -3), (2, 9)]⟩ (f b).1
        (f b).2 = .ok data) := by
  obtain ⟨keys, e', hsetup⟩ := exists_setup_square
  have hthree : IsWitness squareSystem ⟨[(0, 1), (1, 3), (2, 9)]⟩ :=
    ⟨by decide, Nat.cast_one, by decide⟩
  have hminus : IsWitness squareSystem ⟨[(0, 1), (1, -3), (2, 9)]⟩ :=
    ⟨by decide, Nat.cast_one, by decide⟩
  have hpublic := exists_perm_proveWith_eq (Residues.models Residues.base)
    (Residues.models Residues.extension) squareSystem_wellFormed hsetup hthree hminus fun i hi => by
      obtain rfl := List.mem_singleton.mp hi
      rfl
  exact ⟨keys, e', hsetup, hpublic.1⟩

end Groth16

end ArrowCircuit
