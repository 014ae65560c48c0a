import ArrowCircuit.Chain.Format
import ArrowCircuit.Proofs.Chain.Account
import ArrowCircuit.Proofs.Groth16.Run

/-!
# The form of proofs for the chain

A proof of the right size, with as many public inputs as its key has points for, has a form for the
chain, unless the price of a byte is no factor.  The key has an account for every authority, and the size
that is reported is the number of the account's bytes.
-/

namespace ArrowCircuit

/-! ## Proofs -/

/-- A number of the scalar field fits a word. -/
theorem Canonical.toNat_lt_two_pow {z : Int} (h : Canonical scalarModulus z) : z.toNat < 2 ^ 256 :=
  h.toNat_lt.trans (by decide)

namespace ChainProof

/-- Prices other than nothing and mappings are factors. -/
theorem exists_rentAt (size : Int) {rate : Json} (hnull : rate ≠ .null)
    (hobject : ∀ fields, rate ≠ .object fields) : ∃ rent, rentAt size rate = .ok rent := by
  cases rate with
  | null => exact absurd rfl hnull
  | object fields => exact absurd rfl (hobject fields)
  | _ => exact ⟨_, rfl⟩

/-- The word of a public input is read off the text that the prover gives it. -/
theorem inputWord_publicText {z : Int} (h : Canonical scalarModulus z) :
    inputWord (Groth16.publicText z) = .ok (Bytes.bigEndian 32 z.toNat) := by
  have hlt := h.toNat_lt_two_pow
  have hne : Bytes.bigEndian 32 z.toNat ≠ [] :=
    List.ne_nil_of_length_eq_add_one (Bytes.length_bigEndian 32 _)
  have hvalue := Wire.hexValue_marked hne (Bytes.length_bigEndian 32 z.toNat).le
  rw [Bytes.toNat_bigEndian_of_lt (by omega)] at hvalue
  simp only [inputWord, Groth16.publicText, Value.str, Wire.ofString_marked, hvalue, bind, Except.bind,
    Wire.word_natCast hlt, Except.mapError]

theorem checkProof_eq_ok {proof : Bytes} {inputs : List Value} {n : Nat} (hn : n ≤ Account.maxInputs)
    (hinputs : inputs.length = n) (hproof : proof.length = 256) :
    checkProof proof inputs n = .ok n := by
  rw [checkProof, Account.checkedCount_eq_ok hn]
  simp only [Except.mapError, bind, Except.bind, pure, Except.pure, hinputs, hproof,
    ne_eq, not_true_eq_false, if_false]

theorem assemble_eq_ok {backend : String} {key proof : Bytes} {rate rent : Json} {zs : List Int}
    {n : Nat} (hkey : key.length = 448 + 64 * (n + 1)) (hzs : ∀ z ∈ zs, Canonical scalarModulus z)
    (hrent : rentAt (Account.size n) rate = .ok rent) :
    assemble backend (some key) rate proof (zs.map Groth16.publicText) n =
      .ok ⟨key, n, proof, zs.map fun z => Bytes.bigEndian 32 z.toNat, Account.size n, rent⟩ := by
  have hsize : (key.length : Int) = Account.keySize n := by rw [Account.keySize_eq, hkey]
  have hwords : (zs.map Groth16.publicText).mapM inputWord =
      .ok (zs.map fun z => Bytes.bigEndian 32 z.toNat) := by
    rw [mapM_eq_ok_iff, List.forall₂_map_left_iff, List.forall₂_map_right_iff]
    exact List.forall₂_same.mpr fun z hz => inputWord_publicText (hzs z hz)
  simp only [assemble, if_neg (not_not.mpr hsize), hwords, hrent, bind, Except.bind, pure, Except.pure]

end ChainProof

end ArrowCircuit
