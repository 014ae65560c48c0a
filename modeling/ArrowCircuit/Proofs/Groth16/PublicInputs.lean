import ArrowCircuit.Proofs.Groth16.Completeness

/-!
# Aliases of public inputs

The verifier rejects a public input that is not below the scalar modulus, and then reduces what it has.
Nothing is asked of negative numbers, so a proof that is accepted for some public inputs is accepted
for the negative ones that are congruent to them (`verify_of_congruent`), and for nonnegative ones
only as they are.
-/

namespace ArrowCircuit

/-! ## Scalars count by their residues -/

/-- Two lists of numbers with the same residues in the scalar field. -/
def Congruent (zs zs' : List Int) : Prop :=
  List.Forall₂ (fun z z' => z ≡ z' [ZMOD scalarModulus]) zs zs'

theorem PointGroup.sum_congr (g : PointGroup) {zs zs' : List Int} (h : Congruent zs zs')
    (ps : List g.Point) : g.sum scalarModulus ps zs = g.sum scalarModulus ps zs' := by
  rw [PointGroup.sum, PointGroup.sum]
  -- the sum is built from the left, so the start is general
  generalize g.zero = acc
  induction h generalizing ps acc with
  | nil => rfl
  | @cons z z' _ _ hz _ ih =>
      have hmod : z % (scalarModulus : Int) = z' % (scalarModulus : Int) := hz
      cases ps with
      | nil => rfl
      | cons p ps =>
          rw [List.zip_cons_cons, List.zip_cons_cons, List.foldl_cons, List.foldl_cons]
          dsimp only
          rw [hmod]
          exact ih ps _

/-- Lists of reduced numbers with the same residues are equal. -/
theorem Congruent.eq_of_canonical {zs zs' : List Int} (h : Congruent zs zs')
    (hzs : ∀ z ∈ zs, Canonical scalarModulus z) (hzs' : ∀ z ∈ zs', Canonical scalarModulus z) :
    zs = zs' := by
  induction h with
  | nil => rfl
  | @cons z z' _ _ hz _ ih =>
      obtain ⟨⟨h0, hlt⟩, hzs⟩ := List.forall_mem_cons.mp hzs
      obtain ⟨⟨h0', hlt'⟩, hzs'⟩ := List.forall_mem_cons.mp hzs'
      have hmod : z % (scalarModulus : Int) = z' % (scalarModulus : Int) := hz
      rw [Int.emod_eq_of_lt h0 hlt, Int.emod_eq_of_lt h0' hlt'] at hmod
      rw [hmod, ih hzs hzs']

namespace Groth16

variable {S : PairingSuite} {key proof : Bytes} {inputs inputs' : List Value}

theorem accepts_congr (k : VerifyingKey S) (p : Proof S) {zs zs' : List Int} (h : Congruent zs zs') :
    accepts S k p zs = accepts S k p zs' := by
  rw [accepts, accepts, PointGroup.sum_congr S.g1 h]

/-- Of what the verifier accepts it has read everything. -/
theorem exists_of_verify (h : verify S key proof inputs = .ok true) :
    ∃ k p zs, VerifyingKey.decode S key = .ok k ∧ Proof.decode S proof = .ok p ∧
      List.Forall₂ (fun v z => Wire.publicValue v = .ok z) inputs zs ∧
      inputs.length + 1 = k.inputs.length := by
  rw [verify] at h
  obtain ⟨k, hk, h⟩ := bind_eq_ok h
  simp only [bind, Except.bind] at h
  split at h
  · cases h
  · next hlen =>
      split at h
      · -- bytes that are not points
        split at h <;> cases h
      · cases h
      · next p hp =>
          split at h
          · cases h
          · next zs hread =>
              exact ⟨k, p, zs, mapError_eq_ok hk, hp,
                (mapM_eq_ok_iff.mp hread).imp fun _ _ hz => mapError_eq_ok hz, not_not.mp hlen⟩

/-- **Aliases.** Of accepted public inputs each is below the modulus.  In their place, under the same key
and for the same proof, values with the same residues are accepted if they are below the modulus as
well, and rejected if not.  Among nonnegative values that leaves one list; a negative number passes
for its residue. -/
theorem verify_of_congruent (h : verify S key proof inputs = .ok true) :
    ∃ zs, List.Forall₂ (fun v z => Wire.publicValue v = .ok z) inputs zs ∧
      (∀ z ∈ zs, z < scalarModulus) ∧
      ∀ inputs' zs', List.Forall₂ (fun v z => Wire.publicValue v = .ok z) inputs' zs' →
        Congruent zs zs' →
        verify S key proof inputs' = .ok (decide (∀ z ∈ zs', z < scalarModulus)) ∧
        ((∀ z ∈ zs, 0 ≤ z) → (∀ z ∈ zs', 0 ≤ z) → verify S key proof inputs' = .ok true →
          zs = zs') := by
  obtain ⟨k, p, zs, hk, hp, hread, hlen⟩ := exists_of_verify h
  rw [verify_eq_decide hk hp hread hlen, Except.ok.injEq, Bool.and_eq_true, decide_eq_true_iff] at h
  obtain ⟨hlt, haccept⟩ := h
  refine ⟨zs, hread, hlt, fun inputs' zs' hread' hcongr => ?_⟩
  have hlen' : inputs'.length + 1 = k.inputs.length := by
    rw [hread'.length_eq, ← hcongr.length_eq, ← hread.length_eq, hlen]
  have hverify : verify S key proof inputs' = .ok (decide (∀ z ∈ zs', z < scalarModulus)) := by
    rw [verify_eq_decide hk hp hread' hlen', ← accepts_congr k p hcongr, haccept, Bool.and_true]
  refine ⟨hverify, fun h0 h0' haccept' => ?_⟩
  have hlt' : ∀ z ∈ zs', z < scalarModulus :=
    of_decide_eq_true (Except.ok.inj (hverify.symm.trans haccept'))
  exact hcongr.eq_of_canonical (fun z hz => ⟨h0 z hz, hlt z hz⟩) fun z hz => ⟨h0' z hz, hlt' z hz⟩

/-- A proof that nine is a square is accepted for nine less the modulus, and not for nine and the
modulus. -/
theorem verify_of_congruent_square : ∃ keys data,
    setupWith Residues.suite squareSystem ⟨5, 2, 3, 4, 6⟩ = .ok keys ∧
      proveWith Residues.suite keys.provingKey squareSystem ⟨[(0, 1), (1, 3), (2, 9)]⟩ 7 8 = .ok data ∧
      verify Residues.suite keys.verifyingKey data.proof data.publicInputs = .ok true ∧
      verify Residues.suite keys.verifyingKey data.proof [.int 9] = .ok true ∧
      verify Residues.suite keys.verifyingKey data.proof [.int (9 - scalarModulus)] = .ok true ∧
      verify Residues.suite keys.verifyingKey data.proof [.int (9 + scalarModulus)] = .ok false := by
  obtain ⟨keys, data, q, hkeys, hprove, -, hinputs, -, hq, k, p, x, y, hverify, hk, hp, hgap⟩ :=
    run_eq (S := Residues.suite) (t := ⟨5, 2, 3, 4, 6⟩) (w := ⟨[(0, 1), (1, 3), (2, 9)]⟩)
      (PairingSuite.model₁ (Residues.models Residues.base))
      (PairingSuite.model₂ (Residues.models Residues.extension)) squareSystem_wellFormed (by decide)
      (by decide)
      (Trapdoor.admissible_of_bounds (by decide) (by decide) (by decide) (by decide)) (by decide)
      Nat.cast_one 7 8
  have hsize : q.size = 3 := hq.size_eq
  rw [remainder_eq_zero squareSystem_wellFormed hq (hsize ▸ by decide) (by decide),
    Polynomial.eval_zero] at hgap
  rw [accepts_of_gap_eq_zero Residues.bilinear hk hp hgap] at hverify
  obtain ⟨zs, hread, -, hcongr⟩ := verify_of_congruent hverify
  obtain rfl : zs = [9] := by
    rw [hinputs] at hread
    obtain ⟨z, rest, hz, hrest, rfl⟩ := List.forall₂_cons_left_iff.mp hread
    obtain rfl := List.forall₂_nil_left_iff.mp hrest
    have hnine := (publicValue_publicText 9).2
    rw [Except.ok.inj (hz.symm.trans hnine)]
    rfl
  have halias := fun z (hz : 9 ≡ z [ZMOD scalarModulus]) =>
    (hcongr [.int z] [z] (.cons rfl .nil) (.cons hz .nil)).1
  refine ⟨keys, data, hkeys, hprove, hverify, ?_, ?_, ?_⟩
  · exact halias 9 rfl
  · exact halias (9 - scalarModulus) (by decide)
  · exact halias (9 + scalarModulus) (by decide)

end Groth16

end ArrowCircuit
