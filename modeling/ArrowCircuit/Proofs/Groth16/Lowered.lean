import ArrowCircuit.Proofs.Curve.Multiples
import ArrowCircuit.Proofs.Groth16.Run
import ArrowCircuit.Proofs.Script.Reads
import ArrowCircuit.Proofs.Wire.Canonical
import ArrowCircuit.Proofs.Witness.NamedInputs

/-!
# Keys and proofs of lowered circuits

Lowering gives systems that setup and prover can work with, and generation gives witnesses that are
full.  So for a lowered circuit setup fails only where a key's header has no room or no draw lies
outside the domain, and the prover never fails (`prove_of_setup`).  The public inputs of its proofs are
the numbers that have been supplied for the public parameters, in the order of the script
(`supplied_of_witness`).
-/

namespace ArrowCircuit

/-! ## Systems -/

namespace ConstraintSystem

/-- The number of rows of the program of a system: its constraints and one row for each index of the
instance. -/
def rowCount (s : ConstraintSystem) : Nat := s.constraints.length + 1 + s.publicInputs.length

/-- The header of a proving key has room for the sizes of a system. -/
def FitsHeader (s : ConstraintSystem) : Prop := s.numWitnesses < 2 ^ 32 ∧ s.rowCount < 2 ^ 32

/-- A system that is laid out speaks only of its own indices, and its instance has none twice. -/
theorem LaidOut.wellFormed {s : ConstraintSystem} {k m : Nat} (h : s.LaidOut k m) : s.WellFormed := by
  have hlt := h.lt_numWitnesses
  refine ⟨fun c hc => ?_, fun i hi => ?_, ?_⟩
  · exact h.constraints c hc
  · rw [instanceIndices, h.publicInputs, List.mem_cons, List.mem_range'_1] at hi
    rcases hi with rfl | hi
    · exact Nat.zero_lt_of_lt hlt
    · omega
  · -- the constant stands before all inputs
    rw [instanceIndices, h.publicInputs]
    refine List.nodup_cons.mpr ⟨fun hmem => ?_, List.nodup_range'⟩
    have hle := (List.mem_range'_1.mp hmem).1
    exact absurd hle (by rw [oneIndex]; omega)

end ConstraintSystem

/-! ## Keys and proofs -/

namespace Groth16

/-- The values of the public inputs in a witness. -/
def publicValues (s : ConstraintSystem) (w : Assignment) : List Int :=
  s.publicInputs.map fun i => (values s w).getD i 0

theorem canonical_of_mem_publicValues {s : ConstraintSystem} {w : Assignment} {z : Int}
    (h : z ∈ publicValues s w) : Canonical scalarModulus z := by
  obtain ⟨i, -, rfl⟩ := List.mem_map.mp h
  rcases Nat.lt_or_ge i s.numWitnesses with hi | hi
  · rw [getD_values w hi]
    exact Poly.canonical_reduce _
  · rw [List.getD_eq_default _ _ (by rwa [length_values])]
    exact Poly.canonical_zero

variable {S : PairingSuite} {G₁ G₂ : Type} [AddCommGroup G₁] [AddCommGroup G₂]
  (M₁ : S.curve.Models G₁) (M₂ : S.twist.Models G₂) {s : ConstraintSystem} (hs : s.WellFormed)

include M₁ M₂ hs

/-- Setup gives keys where their header has room and some draw lies outside the domain. -/
theorem exists_setup (hfits : s.FitsHeader) {e e' : Entropy} {t : Trapdoor}
    (hdraw : Trapdoor.draw s.rowCount e = some (t, e')) :
    ∃ keys, setup S s e = .ok (keys, e') := by
  obtain ⟨q, hqap, hq⟩ := hs.qap_eq
  obtain ⟨keys, hkeys⟩ := (exists_setupWith_iff (PairingSuite.model₁ M₁) (PairingSuite.model₂ M₂) hs
    (Trapdoor.admissible_of_draw hdraw)).mpr hfits
  rw [ConstraintSystem.rowCount, ← hq.size_eq] at hdraw
  exact ⟨keys, setup_eq_of_draw hqap hdraw hkeys⟩

/-- **Keys and proofs.** The verifying key that a setup has made has a point for each index of the
instance, and from the proving key there is a proof for every full witness and any randomness. -/
theorem prove_of_setup {keys : KeyPair} {e e' : Entropy} (h : setup S s e = .ok (keys, e')) :
    keys.verifyingKey.length = 448 + 64 * (s.publicInputs.length + 1) ∧
      ∀ w : Assignment, (∀ i < s.numWitnesses, (w.get? i).isSome) → ∀ e₁, ∃ proof e₂,
        proof.length = 256 ∧ prove S keys.provingKey s w e₁ =
          .ok (⟨proof, (publicValues s w).map publicText⟩, e₂) := by
  obtain ⟨q, hqap, hq⟩ := hs.qap_eq
  obtain ⟨t, hdraw, hkeys⟩ := exists_draw_of_setup hqap h
  rw [hq.size_eq] at hdraw
  have ht := Trapdoor.admissible_of_draw hdraw
  obtain ⟨hn, hsize⟩ := (exists_setupWith_iff (PairingSuite.model₁ M₁) (PairingSuite.model₂ M₂) hs
    ht).mp ⟨keys, hkeys⟩
  -- what the setup has made is what `setupWith_eq` speaks of, since the trapdoor determines the keys
  obtain ⟨keys', q, basis, pk, vk, hkeys', hqap, -, -, -, hpk, -, hkn, hkd, hki, hvk, hstands⟩ :=
    setupWith_eq (PairingSuite.model₁ M₁) (PairingSuite.model₂ M₂) hs hn hsize ht
  obtain rfl : keys' = keys := Except.ok.inj (hkeys'.symm.trans hkeys)
  constructor
  · have hcount : vk.inputs.length = s.publicInputs.length + 1 := by
      rw [hstands.inputs.length_eq, keyNumbers, List.length_map]
      rfl
    rw [VerifyingKey.length_of_decode hvk (show 0 < 64 by decide), hcount, Nat.mul_comm]
    rfl
  · intro w hfull e₁
    have hproof := proveWith_eq hpk hkn hki hqap hkd hs hfull
      (PrimeField.scalar.random e₁).1 (PrimeField.scalar.random (PrimeField.scalar.random e₁).2).1
    rw [publicValues, List.map_map]
    exact ⟨_, _, Proof.length_encode (PairingSuite.model₁ M₁).survives
      (PairingSuite.model₂ M₂).survives _, prove_eq_of_draws rfl rfl hproof⟩

end Groth16

/-! ## Public values -/

theorem Script.map_index_numbered (index : Nat) (names : List String) :
    (numbered index names).map (·.index) = List.range' index names.length := by
  rw [numbered, List.map_map]
  exact List.zipIdx_map_snd index names

/-- The parameters of a group are listed in the order of their positions. -/
theorem Script.mergeSort_numbered (index : Nat) (names : List String) :
    (numbered index names).mergeSort (fun p q => p.index ≤ q.index) = numbered index names := by
  refine List.mergeSort_of_pairwise ?_
  have hindices : ((numbered index names).map (·.index)).Pairwise (· < ·) := by
    rw [map_index_numbered]
    exact List.pairwise_lt_range'
  exact (List.pairwise_map.mp hindices).imp fun h => decide_eq_true (Nat.le_of_lt h)

namespace Circuit

variable {α : Type} {c : Circuit} {m : InputMap α}

/-- In a script, the public values are in the order of the public parameters. -/
theorem forall₂_groupValues_of_parse {text : String} (h : Circuit.parse text = .ok c)
    (hnames : ∀ name ∈ c.paramNames, ∃ v, m.get? name = some v) :
    List.Forall₂ (fun p v => m.get? p.name = some v) c.publicParams
      (groupValues m c.publicParams) := by
  obtain ⟨-, -, -, ⟨publics, -, -, hpublics, -⟩, -⟩ := Script.lists_and_reads_of_parse h
  have hsorted : c.publicParams.mergeSort (fun p q => p.index ≤ q.index) = c.publicParams := by
    rw [hpublics, Script.mergeSort_numbered]
  nth_rewrite 1 [← hsorted]
  exact forall₂_groupValues fun p hp =>
    hnames p.name (List.mem_append_right _ (List.mem_map_of_mem hp))

end Circuit

namespace Witness

open Circuit Lowering

variable {c : Circuit} {s : State} {bits : Nat} {w : Assignment}
  {privateValues publicValues : List Value}

/-- Numbers that are read off the values of parameters are those supplied under their names. -/
theorem forall₂_supplied {f : PrimeField} {m : InputMap Value} {params : List Param}
    {values : List Value} {zs : List Int}
    (hgiven : List.Forall₂ (fun p v => m.get? p.name = some v) params values)
    (hread : parseAll f values = .ok zs) :
    List.Forall₂ (fun p z => supplied f m p.name = some z) params zs := by
  replace hread := parseAll_eq_ok_iff.mp hread
  induction hgiven generalizing zs with
  | nil =>
      cases hread
      exact .nil
  | cons hv _ ih =>
      obtain _ | ⟨⟨e, he, rfl⟩, hrest⟩ := hread
      refine .cons ?_ (ih hrest)
      rw [supplied, hv, Option.bind_some, he]
      rfl

/-- The public inputs of a witness are the numbers that are read off the public values. -/
theorem parseAll_of_witness
    (hs : lowerStatements ⟨.scalar, bits⟩ c.statements (paramState c) = .ok s)
    (hw : (s.system c).witness .scalar privateValues publicValues = .ok w) :
    parseAll .scalar publicValues = .ok (Groth16.publicValues (s.system c) w) := by
  obtain ⟨zs, zs', -, hzs', hlen, hget⟩ := get?_of_witness hs hw
  have hlaid := laidOut_system hs
  have hlt := hlaid.lt_numWitnesses
  have hcount : zs'.length = c.publicParams.length :=
    (length_of_parseAll hzs').trans (witness_eq_ok_iff.mp hw).2.1
  rw [hzs', Groth16.publicValues, hlaid.publicInputs]
  refine congrArg Except.ok (List.ext_getElem ?_ fun j hj hj' => ?_)
  · rw [List.length_map, List.length_range', hcount]
  · obtain ⟨h0, hmodulus⟩ := canonical_of_parseAll hzs' _ (List.getElem_mem hj)
    -- the public inputs stand behind the constant and the private inputs
    have hindex : w.get? (1 + c.privateParams.length + 1 * j) = some zs'[j] := by
      rw [show 1 + c.privateParams.length + 1 * j = c.privateParams.length + j + 1 by omega,
        hget _ (by rw [length_paramNames]; omega), List.getElem?_append_right (by omega), hlen,
        Nat.add_sub_cancel_left, List.getElem?_eq_getElem hj]
    rw [List.getElem_map, List.getElem_range', Groth16.getD_values w (by omega), hindex,
      Option.getD_some]
    exact (Int.emod_eq_of_lt h0 hmodulus).symm

end Witness

namespace Direct

open Circuit Lowering Witness

variable {c : Compiled} {bits : Nat} {inputs : InputMap Value} {w : Assignment}
  (hlower : c.circuit.lower { bits } = .ok c.system) (hw : Direct.witness c inputs = .ok w)

include hlower hw

/-- A witness for named inputs is one for the values under the names of the parameters. -/
theorem exists_lowerStatements_of_witness :
    ∃ s, lowerStatements ⟨.scalar, bits⟩ c.circuit.statements (paramState c.circuit) = .ok s ∧
      c.system = s.system c.circuit ∧
      (s.system c.circuit).witness .scalar (groupValues inputs c.circuit.privateParams)
        (groupValues inputs c.circuit.publicParams) = .ok w ∧
      ∀ name ∈ c.circuit.paramNames, ∃ v, inputs.get? name = some v := by
  obtain ⟨s, hs, hsystem⟩ := lower_eq_ok_iff.mp hlower
  obtain ⟨values, hvalues, hw⟩ := bind_eq_ok hw
  obtain ⟨rfl, hnames⟩ := of_orderedValues_eq_ok (mapError_eq_ok hvalues)
  rw [hsystem] at hw
  exact ⟨s, hs, hsystem, mapError_eq_ok hw, hnames⟩

/-- What generation gives has a value at every index. -/
theorem isSome_of_witness : ∀ i < c.system.numWitnesses, (w.get? i).isSome := by
  obtain ⟨s, -, hsystem, hw, -⟩ := exists_lowerStatements_of_witness hlower hw
  obtain ⟨-, -, -, -, -, -, -, hfull⟩ := witness_eq_ok_iff.mp hw
  rw [hsystem]
  exact hfull

/-- **Public values.** The public inputs of a witness for a script are the numbers supplied for the
public parameters, in their order. -/
theorem supplied_of_witness {text : String} (hparse : Circuit.parse text = .ok c.circuit) :
    List.Forall₂ (fun p z => supplied .scalar inputs p.name = some z) c.circuit.publicParams
      (Groth16.publicValues c.system w) := by
  obtain ⟨s, hs, hsystem, hw, hnames⟩ := exists_lowerStatements_of_witness hlower hw
  rw [hsystem]
  exact forall₂_supplied (forall₂_groupValues_of_parse hparse hnames) (parseAll_of_witness hs hw)

end Direct

end ArrowCircuit
