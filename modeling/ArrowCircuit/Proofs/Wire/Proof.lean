import ArrowCircuit.Proofs.Curve.Laws
import ArrowCircuit.Wire.Proof

/-!
# Proofs and verifying keys survive their byte form

What is written and read back consists of the same points.
-/

namespace ArrowCircuit

variable {S : PairingSuite} {IsValid₁ : S.g1.Point → Prop} {IsValid₂ : S.g2.Point → Prop}
  {Related₁ : S.g1.Point → S.g1.Point → Prop} {Related₂ : S.g2.Point → S.g2.Point → Prop}
  (h₁ : S.g1.Survives IsValid₁ Related₁) (h₂ : S.g2.Survives IsValid₂ Related₂)
  {G₁ G₂ : Type} [AddCommGroup G₁] [AddCommGroup G₂] (M₁ : S.g1.Models G₁) (M₂ : S.g2.Models G₂)

/-! ## Proofs -/

namespace Proof

/-- A proof of valid points. -/
structure Valid (IsValid₁ : S.g1.Point → Prop) (IsValid₂ : S.g2.Point → Prop) (p : Proof S) :
    Prop where
  a : IsValid₁ p.a
  b : IsValid₂ p.b
  c : IsValid₁ p.c

/-- Two proofs of related points. -/
structure Related (Related₁ : S.g1.Point → S.g1.Point → Prop)
    (Related₂ : S.g2.Point → S.g2.Point → Prop) (p q : Proof S) : Prop where
  a : Related₁ p.a q.a
  b : Related₂ p.b q.b
  c : Related₁ p.c q.c

/-- Two proofs of the same points. -/
abbrev Same (p q : Proof S) : Prop := p.Related M₁.Same M₂.Same q

include h₁ h₂ in
theorem length_encode (p : Proof S) : p.encode.length = size S := by
  rw [encode, List.length_append, List.length_append, h₁.length_encode, h₂.length_encode,
    h₁.length_encode, size]

include h₁ h₂ in
theorem related_decode_encode {p : Proof S} (hp : p.Valid IsValid₁ IsValid₂) :
    ∃ q, decode S p.encode = .ok q ∧ p.Related Related₁ Related₂ q := by
  have ha : p.encode.At 0 (S.g1.encode p.a ++ (S.g2.encode p.b ++ S.g1.encode p.c)) := by
    rw [Bytes.At, List.drop_zero, encode, List.append_assoc]
  -- the reader takes whatever follows the second point as the third
  have hb := ha.next (h₁.length_encode p.a)
  have hc := hb.next (h₂.length_encode p.b)
  rw [Nat.zero_add] at hb hc
  obtain ⟨a, hda, hsa⟩ := h₁.decode_at ha hp.a
  obtain ⟨b, hdb, hsb⟩ := h₂.decode_at hb hp.b
  obtain ⟨c, hdc, hsc⟩ := h₁.decode_encode hp.c
  refine ⟨⟨a, b, c⟩, ?_, hsa, hsb, hsc⟩
  rw [decode, if_neg (not_not.mpr (length_encode h₁ h₂ p)), hda, hdb, hc, hdc]
  rfl

variable {M₁ M₂}

theorem decode_encode {p : Proof S} (hp : p.Same M₁ M₂ p) :
    ∃ q, decode S p.encode = .ok q ∧ p.Same M₁ M₂ q :=
  related_decode_encode M₁.survives M₂.survives ⟨hp.a.1, hp.b.1, hp.c.1⟩

end Proof

/-! ## Verifying keys -/

namespace VerifyingKey

/-- A key of valid points, one of them at least for the instance. -/
structure Valid (IsValid₁ : S.g1.Point → Prop) (IsValid₂ : S.g2.Point → Prop)
    (k : VerifyingKey S) : Prop where
  alpha : IsValid₁ k.alpha
  beta : IsValid₂ k.beta
  gamma : IsValid₂ k.gamma
  delta : IsValid₂ k.delta
  inputs : ∀ p ∈ k.inputs, IsValid₁ p
  inputs_ne_nil : k.inputs ≠ []

/-- Two keys of related points. -/
structure Related (Related₁ : S.g1.Point → S.g1.Point → Prop)
    (Related₂ : S.g2.Point → S.g2.Point → Prop) (k l : VerifyingKey S) : Prop where
  alpha : Related₁ k.alpha l.alpha
  beta : Related₂ k.beta l.beta
  gamma : Related₂ k.gamma l.gamma
  delta : Related₂ k.delta l.delta
  inputs : List.Forall₂ Related₁ k.inputs l.inputs

/-- Two keys of the same points. -/
abbrev Same (k l : VerifyingKey S) : Prop := k.Related M₁.Same M₂.Same l

include h₁ h₂ in
theorem length_encode (k : VerifyingKey S) :
    k.encode.length = headerSize S + k.inputs.length * S.g1.size := by
  simp only [encode, List.length_append, h₁.length_encode, h₂.length_encode, h₁.length_encodeList,
    headerSize]
  omega

include h₁ h₂ in
theorem inputCount_encode {k : VerifyingKey S} (hk : k.inputs ≠ []) :
    inputCount S k.encode = .ok (k.inputs.length - 1) := by
  have hpos := h₁.size_pos
  have hlen : 1 ≤ k.inputs.length := List.length_pos_iff.mpr hk
  have hrest : k.encode.length - headerSize S = k.inputs.length * S.g1.size := by
    rw [length_encode h₁ h₂, Nat.add_sub_cancel_left]
  have hlt : ¬k.inputs.length * S.g1.size < S.g1.size :=
    Nat.not_lt.mpr (Nat.le_mul_of_pos_left _ hlen)
  simp only [inputCount, hrest]
  rw [if_neg (not_or.mpr ⟨hlt, not_not.mpr (Nat.mul_mod_left _ _)⟩), Nat.mul_div_cancel _ hpos]

include h₁ h₂ in
theorem related_decode_encode {k : VerifyingKey S} (hk : k.Valid IsValid₁ IsValid₂) :
    ∃ l, decode S k.encode = .ok l ∧ k.Related Related₁ Related₂ l := by
  have hlen : k.inputs.length - 1 + 1 = k.inputs.length :=
    Nat.sub_add_cancel (List.length_pos_iff.mpr hk.inputs_ne_nil)
  have halpha : k.encode.At 0 (S.g1.encode k.alpha ++ (S.g2.encode k.beta ++
      (S.g2.encode k.gamma ++ (S.g2.encode k.delta ++ (S.g1.encodeList k.inputs ++ []))))) := by
    rw [Bytes.At, List.drop_zero, encode]
    simp only [List.append_assoc, List.append_nil]
  have hbeta := halpha.next (h₁.length_encode _)
  have hgamma := hbeta.next (h₂.length_encode _)
  have hdelta := hgamma.next (h₂.length_encode _)
  have hinputs := hdelta.next (h₂.length_encode _)
  obtain ⟨alpha, hda, hsa⟩ := h₁.decode_at halpha hk.alpha
  obtain ⟨beta, hdb, hsb⟩ := h₂.decode_at hbeta hk.beta
  obtain ⟨gamma, hdg, hsg⟩ := h₂.decode_at hgamma hk.gamma
  obtain ⟨delta, hdd, hsd⟩ := h₂.decode_at hdelta hk.delta
  obtain ⟨inputs, hdi, hsi⟩ := h₁.decodeList_at hinputs hk.inputs
  -- the offsets as the reader computes them
  rw [show 0 + S.g1.size = S.g1.size + 0 * S.g2.size by omega] at hdb
  rw [show 0 + S.g1.size + S.g2.size = S.g1.size + 1 * S.g2.size by omega] at hdg
  rw [show 0 + S.g1.size + S.g2.size + S.g2.size = S.g1.size + 2 * S.g2.size by omega] at hdd
  rw [show 0 + S.g1.size + S.g2.size + S.g2.size + S.g2.size = headerSize S by
    rw [headerSize]; omega, ← hlen] at hdi
  refine ⟨⟨alpha, beta, gamma, delta, inputs⟩, ?_, hsa, hsb, hsg, hsd, hsi⟩
  rw [decode, inputCount_encode h₁ h₂ hk.inputs_ne_nil]
  simp only [bind, Except.bind, hda, hdb, hdg, hdd, hdi]
  rfl

variable {M₁ M₂}

theorem decode_encode {k : VerifyingKey S} (hk : k.Same M₁ M₂ k) (hne : k.inputs ≠ []) :
    ∃ l, decode S k.encode = .ok l ∧ k.Same M₁ M₂ l :=
  related_decode_encode M₁.survives M₂.survives
    ⟨hk.alpha.1, hk.beta.1, hk.gamma.1, hk.delta.1,
      PointGroup.Models.isPoint_of_forall₂ hk.inputs, hne⟩

end VerifyingKey

end ArrowCircuit
