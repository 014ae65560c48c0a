import ArrowCircuit.Proofs.Groth16.Equation
import ArrowCircuit.Proofs.Wire.PublicInput

/-!
# Runs of setup, prover and verifier

A run goes through the byte formats of keys, proof and public inputs.  For every full witness, whether
or not it satisfies the constraints, a run comes to an end, and what the verifier checks in it is an
equation of numbers (`run_eq`).  The secrets that setup draws are such as a run needs
(`Trapdoor.admissible_of_draw`).
-/

namespace ArrowCircuit.Groth16

open Polynomial ArrowCircuit.Poly

/-! ## The witness as a list -/

/-- The reduced values of a witness. -/
def values (s : ConstraintSystem) (w : Assignment) : List Int :=
  (List.range s.numWitnesses).map fun i => Poly.reduce ((w.get? i).getD 0)

theorem length_values (s : ConstraintSystem) (w : Assignment) :
    (values s w).length = s.numWitnesses := by
  rw [values, List.length_map, List.length_range]

theorem getD_values {s : ConstraintSystem} (w : Assignment) {i : Nat} (hi : i < s.numWitnesses) :
    (values s w).getD i 0 = Poly.reduce ((w.get? i).getD 0) := by
  rw [List.getD_eq_getElem _ _ (by rwa [length_values])]
  simp only [values, List.getElem_map, List.getElem_range]

theorem intCast_getD_values {s : ConstraintSystem} (w : Assignment) {i : Nat}
    (hi : i < s.numWitnesses) :
    (((values s w).getD i 0 : Int) : ZMod scalarModulus) = w.residue scalarModulus i := by
  rw [getD_values w hi, intCast_reduce]
  rfl

theorem witnessValues_eq {s : ConstraintSystem} {w : Assignment}
    (hfull : ∀ i < s.numWitnesses, (w.get? i).isSome) : witnessValues s w = .ok (values s w) := by
  refine mapM_eq_ok_map fun i hi => ?_
  obtain ⟨v, hv⟩ := Option.isSome_iff_exists.mp (hfull i (List.mem_range.mp hi))
  rw [hv]
  rfl

/-! ## The three programs -/

variable {s : ConstraintSystem} {q : Qap} {w : Assignment}
variable {S : PairingSuite} {G₁ G₂ : Type} [AddCommGroup G₁] [AddCommGroup G₂]

theorem length_powers (x : Int) (count : Nat) (power : Int) :
    (powers x count power).length = count := by
  induction count generalizing power with
  | zero => rfl
  | succ count ih => rw [powers, List.length_cons, ih]

/-- The header of a key that setup makes agrees with its lists. -/
theorem wellFormed_of_stands {M₁ : S.g1.Models G₁} {M₂ : S.g2.Models G₂} (hs : s.WellFormed)
    (hq : s.IsQap q) (hn : s.numWitnesses < 2 ^ 32) (hsize : q.size < 2 ^ 32) {t : Trapdoor}
    {basis : List Int} {k : ProvingKey S} (hk : k.Stands M₁ M₂ (keyNumbers s q t basis))
    (hkn : k.numWitnesses = s.numWitnesses) (hkd : k.domainSize = q.size)
    (hki : k.indices = s.instanceIndices) : k.WellFormed := by
  have ha := (columnSums_spec (length_rows hq.a) basis []).1
  have hb := (columnSums_spec (length_rows hq.b) basis []).1
  have hmixed := length_mixedColumns (length_rows hq.a) (length_rows hq.b) (length_rows hq.c) t basis
  have hcount := hq.size_eq
  have hindices : s.instanceIndices.length = s.publicInputs.length + 1 := List.length_cons
  constructor
  · omega
  · rw [hk.aQuery.length_eq, hkn, keyNumbers, ha]
  · rw [hk.b₁Query.length_eq, hkn, keyNumbers, hb]
  · rw [hk.b₂Query.length_eq, hkn, keyNumbers, hb]
  · rw [hk.hQuery.length_eq, hkd, keyNumbers, List.length_map, length_powers]
  · rw [hk.lQuery.length_eq, hkn, keyNumbers, List.length_map, List.length_zipIdx, hmixed]
  · omega
  · omega
  · rw [hki, hindices]
    omega
  · intro i hi
    have hlt := hs.indices_lt i (hki ▸ hi)
    omega

/-- The text of a public input as the prover hands it over. -/
def publicText (z : Int) : Value := .str ("0x" ++ (Bytes.bigEndian 32 z.toNat).hex)

theorem publicValue_publicText (z : Int) :
    Wire.hexText (Poly.reduce z) = .ok ("0x" ++ (Bytes.bigEndian 32 (Poly.reduce z).toNat).hex) ∧
      Wire.publicValue (publicText (Poly.reduce z)) = .ok (Poly.reduce z) := by
  obtain ⟨h0, hlt⟩ := canonical_reduce z
  have hmodulus : (scalarModulus : Int) < 2 ^ 256 := by decide
  exact Wire.publicValue_hexText h0 (hlt.trans hmodulus)

/-- The prover on a key that it reads, for a full witness. -/
theorem proveWith_eq {key : Bytes} {k : ProvingKey S} (hkey : ProvingKey.decode S key = .ok k)
    (hkn : k.numWitnesses = s.numWitnesses) (hki : k.indices = s.instanceIndices)
    (hq : s.qap = .ok q) (hkd : k.domainSize = q.size) (hs : s.WellFormed)
    (hfull : ∀ i < s.numWitnesses, (w.get? i).isSome) (r u : Nat) :
    proveWith S key s w r u = .ok
      ⟨(proofPoints S k (values s w) (quotientCoefficients q.size (quotient q (values s w)).1) r
          u).encode,
        s.publicInputs.map fun i => publicText ((values s w).getD i 0)⟩ := by
  have hinputs : s.publicInputs.mapM (fun i => do
      return Value.str (← (Wire.hexText ((values s w).getD i 0)).mapError ProveFault.input)) =
      .ok (s.publicInputs.map fun i => publicText ((values s w).getD i 0)) := by
    refine mapM_eq_ok_map fun i hi => ?_
    rw [getD_values w (hs.indices_lt i (List.mem_cons_of_mem _ hi)), (publicValue_publicText _).1]
    rfl
  have hmatch : ¬(k.numWitnesses ≠ s.numWitnesses ∨ k.indices ≠ s.instanceIndices) := by
    rw [hkn, hki]
    simp
  rw [proveWith, hkey, hq]
  simp only [Except.mapError, bind, Except.bind] at hinputs ⊢
  simp only [if_neg hmatch, hkd, witnessValues_eq hfull]
  rw [if_neg (not_not.mpr rfl), hinputs]
  rfl

/-- The verifier on a key, a proof and public inputs that it reads. -/
theorem verify_eq_decide {key proof : Bytes} {k : VerifyingKey S} {p : Proof S}
    (hkey : VerifyingKey.decode S key = .ok k) (hproof : Proof.decode S proof = .ok p)
    {inputs : List Value} {zs : List Int}
    (hinputs : List.Forall₂ (fun v z => Wire.publicValue v = .ok z) inputs zs)
    (hlen : inputs.length + 1 = k.inputs.length) :
    verify S key proof inputs =
      .ok (decide (∀ z ∈ zs, z < scalarModulus) && accepts S k p zs) := by
  have hread : inputs.mapM (fun v => (Wire.publicValue v).mapError VerifyFault.input) = .ok zs :=
    mapM_eq_ok_iff.mpr (hinputs.imp fun v z h => by rw [h]; rfl)
  have hany : zs.any (fun z => z ≥ (scalarModulus : Int)) = !decide (∀ z ∈ zs, z < scalarModulus) := by
    rw [Bool.eq_iff_iff, List.any_eq_true, Bool.not_eq_true', decide_eq_false_iff_not]
    push Not
    simp only [ge_iff_le, decide_eq_true_eq]
  rw [verify, hkey]
  simp only [Except.mapError, bind, Except.bind] at hread ⊢
  simp only [hlen, hproof, hread, hany]
  rw [if_neg (not_not.mpr rfl)]
  cases decide (∀ z ∈ zs, z < scalarModulus) <;> rfl

/-- The verifier for public inputs below the modulus. -/
theorem verify_eq {key proof : Bytes} {k : VerifyingKey S} {p : Proof S}
    (hkey : VerifyingKey.decode S key = .ok k) (hproof : Proof.decode S proof = .ok p)
    {inputs : List Value} {zs : List Int}
    (hinputs : List.Forall₂ (fun v z => Wire.publicValue v = .ok z) inputs zs)
    (hlt : ∀ z ∈ zs, z < scalarModulus) (hlen : inputs.length + 1 = k.inputs.length) :
    verify S key proof inputs = .ok (accepts S k p zs) := by
  rw [verify_eq_decide hkey hproof hinputs hlen, decide_eq_true hlt, Bool.true_and]

/-! ## Trapdoors -/

/-- The first secret lies outside the domain, and the two that are inverted are not zero. -/
structure Trapdoor.Admissible (t : Trapdoor) (size : Nat) : Prop where
  tau_ne : ∀ j, 1 ≤ j → j ≤ size → (t.tau : ZMod scalarModulus) ≠ (j : Nat)
  gamma_ne_zero : (t.gamma : ZMod scalarModulus) ≠ 0
  delta_ne_zero : (t.delta : ZMod scalarModulus) ≠ 0

theorem Trapdoor.Admissible.tau_ne_node {t : Trapdoor} {size : Nat} (ht : t.Admissible size) {i : Nat}
    (hi : i < size) : ((t.tau : Int) : ZMod scalarModulus) ≠ node i := by
  have hne := ht.tau_ne (i + 1) (by omega) hi
  rw [Nat.cast_add, Nat.cast_one] at hne
  rw [Int.cast_natCast]
  exact hne

theorem randomNonzero_bounds (e : Entropy) :
    0 < (PrimeField.scalar.randomNonzero e).1 ∧
      (PrimeField.scalar.randomNonzero e).1 < scalarModulus := by
  have hmodulus : (0 : Int) < ((scalarModulus - 1 : Nat) : Int) := by decide
  have hlt := Int.emod_lt_of_pos (e.stream e.position) hmodulus
  have hnonneg := Int.emod_nonneg (e.stream e.position) hmodulus.ne'
  have heq : (PrimeField.scalar.randomNonzero e).1 =
      (e.stream e.position % ((scalarModulus - 1 : Nat) : Int)).toNat + 1 := rfl
  rw [heq]
  omega

theorem natCast_ne_zero_of_bounds {n : Nat} (hpos : 0 < n) (hlt : n < scalarModulus) :
    (n : ZMod scalarModulus) ≠ 0 := by
  rw [Ne, ZMod.natCast_eq_zero_iff]
  exact Nat.not_dvd_of_pos_of_lt hpos hlt

/-- Whatever the number of attempts, what is drawn is a number of the field above the domain. -/
theorem Trapdoor.drawOutside_bounds {size fuel : Nat} {e e' : Entropy} {tau : Nat}
    (h : drawOutside size fuel e = some (tau, e')) : size < tau ∧ tau < scalarModulus := by
  induction fuel generalizing e with
  | zero => cases h
  | succ fuel ih =>
      have hbounds := randomNonzero_bounds e
      rw [drawOutside] at h
      dsimp only at h
      split at h
      · -- inside the domain: drawn again
        exact ih h
      · next hout =>
          cases h
          omega

theorem Trapdoor.tau_ne_of_bounds {tau size : Nat} (hout : size < tau) (hlt : tau < scalarModulus)
    (j : Nat) (_ : 1 ≤ j) (hj : j ≤ size) : (tau : ZMod scalarModulus) ≠ j := by
  intro heq
  have hval := congrArg ZMod.val heq
  rw [ZMod.val_natCast_of_lt hlt, ZMod.val_natCast_of_lt (by omega)] at hval
  omega

theorem Trapdoor.admissible_of_bounds {t : Trapdoor} {size : Nat} (hout : size < t.tau)
    (htau : t.tau < scalarModulus) (hgamma : 0 < t.gamma ∧ t.gamma < scalarModulus)
    (hdelta : 0 < t.delta ∧ t.delta < scalarModulus) : t.Admissible size :=
  ⟨tau_ne_of_bounds hout htau, natCast_ne_zero_of_bounds hgamma.1 hgamma.2,
    natCast_ne_zero_of_bounds hdelta.1 hdelta.2⟩

/-- **Trapdoors.** What setup draws is admissible. -/
theorem Trapdoor.admissible_of_draw {size : Nat} {e e' : Entropy} {t : Trapdoor}
    (h : draw size e = some (t, e')) : t.Admissible size := by
  obtain ⟨⟨tau, e₁⟩, htau, h⟩ := Option.bind_eq_some_iff.mp h
  cases h
  obtain ⟨hout, hlt⟩ := drawOutside_bounds htau
  exact admissible_of_bounds hout hlt (randomNonzero_bounds _) (randomNonzero_bounds _)

theorem exists_draw_of_setup {e e' : Entropy} {keys : KeyPair} (hq : s.qap = .ok q)
    (h : setup S s e = .ok (keys, e')) :
    ∃ t, Trapdoor.draw q.size e = some (t, e') ∧ setupWith S s t = .ok keys := by
  rw [setup, hq] at h
  simp only [Except.mapError, bind, Except.bind] at h
  split at h
  · cases h
  · next t e₁ hdraw =>
      split at h
      · cases h
      · next hkeys =>
          cases h
          exact ⟨t, hdraw, hkeys⟩

theorem setup_eq_of_draw {t : Trapdoor} {e e' : Entropy} {keys : KeyPair} (hq : s.qap = .ok q)
    (hdraw : Trapdoor.draw q.size e = some (t, e')) (hkeys : setupWith S s t = .ok keys) :
    setup S s e = .ok (keys, e') := by
  rw [setup, hq]
  simp only [Except.mapError, bind, Except.bind, hdraw, hkeys]
  rfl

theorem prove_eq_of_draws {key : Bytes} {r u : Nat} {e e₁ e₂ : Entropy} {data : ProofData}
    (hr : PrimeField.scalar.random e = (r, e₁)) (hu : PrimeField.scalar.random e₁ = (u, e₂))
    (hdata : proveWith S key s w r u = .ok data) : prove S key s w e = .ok (data, e₂) := by
  rw [prove, hr]
  dsimp only
  rw [hu]
  simp only [bind, Except.bind, hdata]
  rfl

/-! ## Runs -/

/-- Where setup gives keys, their header has room for the sizes of the system. -/
theorem sizes_lt_of_setupWith (M₁ : S.g1.Models G₁) (M₂ : S.g2.Models G₂) (hq : s.qap = .ok q)
    {t : Trapdoor} {pair : KeyPair} (h : setupWith S s t = .ok pair) :
    s.numWitnesses < 2 ^ 32 ∧ q.size < 2 ^ 32 := by
  rw [setupWith, hq] at h
  simp only [Except.mapError, bind, Except.bind] at h
  cases hbasis : Poly.lagrange q.size t.tau with
  | error fault =>
      have hkeys : keys S s q t = .error fault := by
        rw [keys, hbasis]
        rfl
      rw [hkeys] at h
      cases h
  | ok basis =>
      obtain ⟨pk, vk, hkeys, -, -, hkn, hkd, -⟩ := keys_eq S M₁ M₂ (s := s) hbasis
      rw [hkeys] at h
      cases hfits : pk.headerFits with
      | false =>
          simp only [hfits] at h
          cases h
      | true =>
          obtain ⟨hn, hsize, -⟩ := ProvingKey.headerFits_iff.mp hfits
          exact ⟨hkn ▸ hn, hkd ▸ hsize⟩

section

variable (M₁ : S.g1.Models G₁) (M₂ : S.g2.Models G₂) (hs : s.WellFormed)
  (hn : s.numWitnesses < 2 ^ 32)
  (hsize : s.constraints.length + 1 + s.publicInputs.length < 2 ^ 32) {t : Trapdoor}
  (ht : t.Admissible (s.constraints.length + 1 + s.publicInputs.length))

include hs hn hsize ht

/-- Setup comes to an end, and from its bytes both keys are read back. -/
theorem setupWith_eq : ∃ keys q basis pk vk, setupWith S s t = .ok keys ∧ s.qap = .ok q ∧ s.IsQap q ∧
    basis.length = q.size ∧ (∀ (i : Nat) (h : i < basis.length), ((basis[i] : Int) : ZMod scalarModulus) =
      (Lagrange.basis (Finset.range q.size) node i).eval (t.tau : ZMod scalarModulus)) ∧
    ProvingKey.decode S keys.provingKey = .ok pk ∧ pk.Stands M₁ M₂ (keyNumbers s q t basis) ∧
    pk.numWitnesses = s.numWitnesses ∧ pk.domainSize = q.size ∧ pk.indices = s.instanceIndices ∧
    VerifyingKey.decode S keys.verifyingKey = .ok vk ∧
    vk.Stands M₁ M₂ (keyNumbers s q t basis) := by
  obtain ⟨q, hqap, hq⟩ := hs.qap_eq
  rw [← hq.size_eq] at hsize ht
  have hlt : q.size < scalarModulus := hsize.trans (by decide)
  obtain ⟨basis, hbasis, hlen, hvalue⟩ := lagrange_eq hlt fun i hi => ht.tau_ne_node hi
  obtain ⟨pk, vk, hkeys, hpk, hvk, hkn, hkd, hki⟩ := keys_eq S M₁ M₂ (s := s) hbasis
  have hwf := wellFormed_of_stands hs hq hn hsize hpk hkn hkd hki
  have hsetup : setupWith S s t = .ok ⟨pk.encode, vk.encode⟩ := by
    rw [setupWith, hqap]
    simp only [Except.mapError, bind, Except.bind, hkeys, hwf.headerFits]
    rfl
  -- what is read back need not be the same keys, but their points stand for the same numbers
  obtain ⟨pk', hdpk, hspk⟩ := ProvingKey.decode_encode hwf hpk.same_self
  have hinputs : vk.inputs ≠ [] := by
    intro hnil
    have hlength := hvk.inputs.length_eq
    rw [hnil] at hlength
    cases hlength
  obtain ⟨vk', hdvk, hsvk⟩ := VerifyingKey.decode_encode hvk.same_self hinputs
  refine ⟨_, q, basis, pk', vk', hsetup, hqap, hq, hlen, ?_, hdpk, hpk.of_same hspk,
    hspk.numWitnesses.symm.trans hkn, hspk.domainSize.symm.trans hkd, hspk.indices.symm.trans hki, hdvk,
    hvk.of_same hsvk⟩
  rw [Int.cast_natCast] at hvalue
  exact hvalue

include M₁ M₂ in
omit hn hsize in
/-- There are keys exactly where their header has room for the sizes of the system. -/
theorem exists_setupWith_iff : (∃ keys, setupWith S s t = .ok keys) ↔
    s.numWitnesses < 2 ^ 32 ∧ s.constraints.length + 1 + s.publicInputs.length < 2 ^ 32 := by
  constructor
  · rintro ⟨keys, hkeys⟩
    obtain ⟨q, hqap, hq⟩ := hs.qap_eq
    rw [← hq.size_eq]
    exact sizes_lt_of_setupWith M₁ M₂ hqap hkeys
  · rintro ⟨hn, hsize⟩
    obtain ⟨keys, -, -, -, -, hkeys, -⟩ := setupWith_eq M₁ M₂ hs hn hsize ht
    exact ⟨keys, hkeys⟩

/-- **Runs.** For a full witness, satisfying or not, setup, prover and verifier come to an end, and
what the verifier checks is an equation of numbers.  The gap between its sides is the value of the
prover's remainder at the trapdoor. -/
theorem run_eq (hfull : ∀ i < s.numWitnesses, (w.get? i).isSome)
    (hone : w.residue scalarModulus oneIndex = 1) (r u : Nat) :
    ∃ keys data q, setupWith S s t = .ok keys ∧ proveWith S keys.provingKey s w r u = .ok data ∧
      data.proof.length = Proof.size S ∧
      data.publicInputs = s.publicInputs.map (fun i => publicText ((values s w).getD i 0)) ∧
      s.qap = .ok q ∧ s.IsQap q ∧ ∃ k p x y,
        verify S keys.verifyingKey data.proof data.publicInputs =
          .ok (accepts S k p (s.publicInputs.map fun i => (values s w).getD i 0)) ∧
        k.Stands M₁ M₂ x ∧ p.Stands M₁ M₂ y ∧
        x.gap y (s.publicInputs.map fun i => (values s w).getD i 0) =
          (toPolynomial (quotient q (values s w)).2).eval (t.tau : ZMod scalarModulus) := by
  obtain ⟨keys, q, basis, pk, vk, hsetup, hqap, hq, hlen, hbasis, hdpk, hpk, hkn, hkd, hki, hdvk,
    hvk⟩ := setupWith_eq M₁ M₂ hs hn hsize ht
  have hprove := proveWith_eq hdpk hkn hki hqap hkd hs hfull r u
  have hpoints := proofPoints_stands hpk (values s w)
    (quotientCoefficients q.size (quotient q (values s w)).1) r u
  rw [hki] at hpoints
  obtain ⟨p, hdp, hsp⟩ := Proof.decode_encode hpoints.same_self
  have hzero : oneIndex < s.numWitnesses := hs.indices_lt oneIndex List.mem_cons_self
  -- the texts of the public inputs are read back as reduced values
  have hread : List.Forall₂ (fun v z => Wire.publicValue v = .ok z)
      (s.publicInputs.map fun i => publicText ((values s w).getD i 0))
      (s.publicInputs.map fun i => (values s w).getD i 0) := by
    rw [List.forall₂_map_left_iff, List.forall₂_map_right_iff]
    refine List.forall₂_same.mpr fun i hi => ?_
    rw [getD_values w (hs.indices_lt i (List.mem_cons_of_mem _ hi))]
    exact (publicValue_publicText _).2
  have hbelow : ∀ z ∈ s.publicInputs.map (fun i => (values s w).getD i 0), z < scalarModulus := by
    intro z hz
    obtain ⟨i, hi, rfl⟩ := List.mem_map.mp hz
    rw [getD_values w (hs.indices_lt i (List.mem_cons_of_mem _ hi))]
    exact (canonical_reduce _).2
  have hcount : (s.publicInputs.map fun i => publicText ((values s w).getD i 0)).length + 1 =
      vk.inputs.length := by
    rw [hvk.inputs.length_eq, keyNumbers, List.length_map, List.length_map]
    rfl
  exact ⟨keys, _, q, hsetup, hprove, Proof.length_encode M₁.survives M₂.survives _, rfl, hqap, hq, vk, p,
    _, _,
    verify_eq hdvk hdp hread hbelow hcount, hvk, hpoints.of_same hsp,
    gap_eq_remainder hs ht.gamma_ne_zero ht.delta_ne_zero (length_values s w)
      ((intCast_getD_values w hzero).trans hone) hq hlen hbasis r u⟩

end

end ArrowCircuit.Groth16
