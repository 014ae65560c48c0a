import ArrowCircuit.Proofs.Curve.Projective
import ArrowCircuit.Proofs.Wire.Proof

/-!
# Proofs and verifying keys have one byte form

The sections that the readers of proofs and verifying keys take their points from cover the whole byte
string, once and in order.  So whatever is read is written as the bytes it was read from.
-/

namespace ArrowCircuit

variable {S : PairingSuite} {IsValid₁ : S.g1.Point → Prop} {IsValid₂ : S.g2.Point → Prop}
  {Same₁ : S.g1.Point → S.g1.Point → Prop} {Same₂ : S.g2.Point → S.g2.Point → Prop}
  (h₁ : S.g1.Exact IsValid₁ Same₁) (h₂ : S.g2.Exact IsValid₂ Same₂)

/-! ## Proofs -/

namespace Proof

include h₁ h₂ in
theorem encode_of_decode {bs : Bytes} {p : Proof S} (h : decode S bs = .ok p) :
    p.Valid IsValid₁ IsValid₂ ∧ p.encode = bs := by
  rw [decode] at h
  split at h
  · cases h
  · obtain ⟨a, ha, h⟩ := bind_eq_ok h
    obtain ⟨b, hb, h⟩ := bind_eq_ok h
    obtain ⟨c, hc, h⟩ := bind_eq_ok h
    cases h
    obtain ⟨hva, ha⟩ := h₁.encode_of_decode (mapError_eq_ok ha)
    obtain ⟨hvb, hb⟩ := h₂.encode_of_decode (mapError_eq_ok hb)
    obtain ⟨hvc, hc⟩ := h₁.encode_of_decode (mapError_eq_ok hc)
    refine ⟨⟨hva, hvb, hvc⟩, ?_⟩
    have hfront := bs.slice_append_slice 0 S.g1.size S.g2.size
    rw [Nat.zero_add] at hfront
    rw [encode, ha, hb, hc, hfront, Bytes.slice, List.drop_zero, List.take_append_drop]

include h₁ h₂ in
theorem encode_congr {p q : Proof S} (h : p.Related Same₁ Same₂ q) : p.encode = q.encode := by
  rw [encode, encode, h₁.encode_congr h.a, h₂.encode_congr h.b, h₁.encode_congr h.c]

include h₁ h₂ in
theorem canonicalFormat :
    CanonicalFormat (Valid IsValid₁ IsValid₂) (Related Same₁ Same₂) encode (decode S) :=
  .of_congr (encode_of_decode h₁ h₂) (encode_congr h₁ h₂)
    (related_decode_encode h₁.toSurvives h₂.toSurvives)

end Proof

/-! ## Verifying keys -/

namespace VerifyingKey

/-- The length of a key tells the number of its inputs. -/
theorem length_of_inputCount {bs : Bytes} {n : Nat} (h : inputCount S bs = .ok n)
    (hpos : 0 < S.g1.size) : bs.length = headerSize S + (n + 1) * S.g1.size := by
  simp only [inputCount] at h
  split at h
  · cases h
  · next hsize =>
      cases h
      obtain ⟨hle, hmod⟩ := not_or.mp hsize
      have hquotient : 1 ≤ (bs.length - headerSize S) / S.g1.size :=
        (Nat.one_le_div_iff hpos).mpr (Nat.not_lt.mp hle)
      have hexact : (bs.length - headerSize S) / S.g1.size * S.g1.size = bs.length - headerSize S :=
        Nat.div_mul_cancel (Nat.dvd_of_mod_eq_zero (not_not.mp hmod))
      rw [Nat.sub_add_cancel hquotient, hexact]
      omega

/-- The length of a key that can be read is told by the number of its points. -/
theorem length_of_decode {bs : Bytes} {k : VerifyingKey S} (h : decode S bs = .ok k)
    (hpos : 0 < S.g1.size) : bs.length = headerSize S + k.inputs.length * S.g1.size := by
  rw [decode] at h
  obtain ⟨n, hn, h⟩ := bind_eq_ok h
  obtain ⟨alpha, -, h⟩ := bind_eq_ok h
  obtain ⟨beta, -, h⟩ := bind_eq_ok h
  obtain ⟨gamma, -, h⟩ := bind_eq_ok h
  obtain ⟨delta, -, h⟩ := bind_eq_ok h
  obtain ⟨inputs, hi, h⟩ := bind_eq_ok h
  cases h
  have hcount := (mapM_eq_ok_iff.mp (mapError_eq_ok hi)).length_eq
  rw [List.length_range] at hcount
  rw [length_of_inputCount hn hpos, hcount]

include h₁ h₂ in
theorem encode_of_decode {bs : Bytes} {k : VerifyingKey S} (h : decode S bs = .ok k) :
    k.Valid IsValid₁ IsValid₂ ∧ k.encode = bs := by
  rw [decode] at h
  obtain ⟨n, hn, h⟩ := bind_eq_ok h
  obtain ⟨alpha, ha, h⟩ := bind_eq_ok h
  obtain ⟨beta, hb, h⟩ := bind_eq_ok h
  obtain ⟨gamma, hg, h⟩ := bind_eq_ok h
  obtain ⟨delta, hd, h⟩ := bind_eq_ok h
  obtain ⟨inputs, hi, h⟩ := bind_eq_ok h
  cases h
  obtain ⟨hva, ha⟩ := h₁.encode_of_decode (mapError_eq_ok ha)
  obtain ⟨hvb, hb⟩ := h₂.encode_of_decode (mapError_eq_ok hb)
  obtain ⟨hvg, hg⟩ := h₂.encode_of_decode (mapError_eq_ok hg)
  obtain ⟨hvd, hd⟩ := h₂.encode_of_decode (mapError_eq_ok hd)
  obtain ⟨hcount, hvi, hi⟩ := h₁.encodeList_of_decodeList (mapError_eq_ok hi)
  have hne : inputs ≠ [] := List.ne_nil_of_length_eq_add_one hcount
  refine ⟨⟨hva, hvb, hvg, hvd, hvi, hne⟩, ?_⟩
  -- the sections join one after the other into the whole
  have hbeta := bs.slice_append_slice 0 S.g1.size S.g2.size
  have hgamma := bs.slice_append_slice 0 (S.g1.size + S.g2.size) S.g2.size
  have hdelta := bs.slice_append_slice 0 (S.g1.size + S.g2.size + S.g2.size) S.g2.size
  have hinputs := bs.slice_append_slice 0 (headerSize S) ((n + 1) * S.g1.size)
  have hheader : S.g1.size + S.g2.size + S.g2.size + S.g2.size = headerSize S := by
    rw [headerSize]
    omega
  simp only [Nat.zero_add] at hbeta hgamma hdelta hinputs
  rw [encode, ha, hb, hg, hd, hi, Nat.zero_mul, Nat.add_zero, hbeta, Nat.one_mul, hgamma, Nat.two_mul,
    ← Nat.add_assoc, hdelta, hheader, hinputs, ← length_of_inputCount hn h₁.size_pos,
    Bytes.slice_zero_length]

include h₁ h₂ in
theorem encode_congr {k l : VerifyingKey S} (h : k.Related Same₁ Same₂ l) : k.encode = l.encode := by
  have hinputs : S.g1.encodeList k.inputs = S.g1.encodeList l.inputs :=
    flatMap_eq_of_forall₂ (h.inputs.imp fun _ _ => h₁.encode_congr)
  rw [encode, encode, h₁.encode_congr h.alpha, h₂.encode_congr h.beta, h₂.encode_congr h.gamma,
    h₂.encode_congr h.delta, hinputs]

include h₁ h₂ in
theorem canonicalFormat :
    CanonicalFormat (Valid IsValid₁ IsValid₂) (Related Same₁ Same₂) encode (decode S) :=
  .of_congr (encode_of_decode h₁ h₂) (encode_congr h₁ h₂)
    (related_decode_encode h₁.toSurvives h₂.toSurvives)

end VerifyingKey

/-! ## All formats -/

/-- A proof of points on the curves. -/
def Proof.OnCurve (p : Proof S) : Prop := p.Valid S.curve.OnCurve S.twist.OnCurve

/-- Two proofs of the same points. -/
def Proof.SamePoints (p q : Proof S) : Prop := p.Related S.curve.SamePoint S.twist.SamePoint q

/-- A key of points on the curves, one of them at least for the instance. -/
def VerifyingKey.OnCurve (k : VerifyingKey S) : Prop := k.Valid S.curve.OnCurve S.twist.OnCurve

/-- Two keys of the same points. -/
def VerifyingKey.SamePoints (k l : VerifyingKey S) : Prop :=
  k.Related S.curve.SamePoint S.twist.SamePoint l

/-- **One byte form.** Over a curve and a twist whose arithmetic does what it says, in whatever form
their points are: what is read as a point, a proof or a verifying key lies on the curves and is written
as the bytes that were read, nothing is read from two byte strings, and every point, proof or key on the
curves is read back as the same points, the ones at infinity included.  The number of public inputs is
told by the bytes. -/
theorem formats_canonical (S : PairingSuite) {b₁ : Fq} {b₂ : Fq2} (h₁ : S.curve.Lawful b₁)
    (h₂ : S.twist.Lawful b₂) :
    CanonicalFormat S.curve.OnCurve S.curve.SamePoint S.g1.encode S.g1.decode ∧
    CanonicalFormat S.twist.OnCurve S.twist.SamePoint S.g2.encode S.g2.decode ∧
    CanonicalFormat Proof.OnCurve Proof.SamePoints Proof.encode (Proof.decode S) ∧
    CanonicalFormat VerifyingKey.OnCurve VerifyingKey.SamePoints VerifyingKey.encode
      (VerifyingKey.decode S) ∧
    ∀ (k : VerifyingKey S) (n : Nat), k.inputs.length = n + 1 →
      VerifyingKey.inputCount S k.encode = .ok n := by
  have hg₁ : S.g1.Exact S.curve.OnCurve S.curve.SamePoint := h₁.exact "G1"
  have hg₂ : S.g2.Exact S.twist.OnCurve S.twist.SamePoint := h₂.exact "G2"
  refine ⟨hg₁.canonicalFormat, hg₂.canonicalFormat, Proof.canonicalFormat hg₁ hg₂,
    VerifyingKey.canonicalFormat hg₁ hg₂, fun k n hn => ?_⟩
  have hne : k.inputs ≠ [] := List.ne_nil_of_length_eq_add_one hn
  rw [VerifyingKey.inputCount_encode hg₁.toSurvives hg₂.toSurvives hne, hn, Nat.add_sub_cancel]

namespace Projective

/-- Twice the form `(1, 2, 1)` of the generator. -/
def doubledForm : Projective Fq := ⟨.ofNat 2, .ofNat 4, .ofNat 2⟩

/-- A form of the point at infinity. -/
def infiniteForm : Projective Fq := ⟨.ofNat 5, .ofNat 7, .ofNat 0⟩

/-- The multiple of the generator of the twist by the imaginary unit, which is a form of it. -/
def rotatedForm : Projective Fq2 :=
  let z := Fq2.ofNats 0 1
  let p := ofPoint generator₂
  ⟨p.x * z, p.y * z, z⟩

/-- A proof with points in these forms. -/
def formProof : Proof suite := ⟨doubledForm, rotatedForm, infiniteForm⟩

/-- A key with points in these forms, for one public input. -/
def formKey : VerifyingKey suite :=
  ⟨doubledForm, rotatedForm, rotatedForm, rotatedForm, [infiniteForm, doubledForm]⟩

end Projective

/-- Proofs in affine form have one byte form, and so do a proof and a key whose points are in projective
forms that are not reduced. -/
theorem formats_canonical_bn254 :
    CanonicalFormat Proof.OnCurve Proof.SamePoints Proof.encode (Proof.decode Bn254.suite) ∧
    (∃ q, Proof.decode Projective.suite Projective.formProof.encode = .ok q ∧
      Projective.formProof.SamePoints q ∧ q.encode = Projective.formProof.encode) ∧
    (∃ l, VerifyingKey.decode Projective.suite Projective.formKey.encode = .ok l ∧
      Projective.formKey.SamePoints l) ∧
    VerifyingKey.inputCount Projective.suite Projective.formKey.encode = .ok 1 := by
  obtain ⟨-, -, haffine, -⟩ := formats_canonical Bn254.suite Bn254.lawful_curve Bn254.lawful_twist
  obtain ⟨-, -, hproof, hkey, hcount⟩ :=
    formats_canonical Projective.suite Projective.lawful_curve Projective.lawful_twist
  have hdoubled : Projective.suite.curve.OnCurve Projective.doubledForm :=
    (by decide +kernel : Projective.doubledForm.isOnCurve curveConstant = true)
  have hinfinite : Projective.suite.curve.OnCurve Projective.infiniteForm :=
    (by decide +kernel : Projective.infiniteForm.isOnCurve curveConstant = true)
  have hrotated : Projective.suite.twist.OnCurve Projective.rotatedForm :=
    (by decide +kernel : Projective.rotatedForm.isOnCurve twistConstant = true)
  obtain ⟨q, hq, hsame⟩ := hproof.decode_encode (a := Projective.formProof)
    ⟨hdoubled, hrotated, hinfinite⟩
  have hinputs : ∀ p ∈ Projective.formKey.inputs, Projective.suite.curve.OnCurve p :=
    List.forall_mem_cons.mpr ⟨hinfinite, List.forall_mem_singleton.mpr hdoubled⟩
  refine ⟨haffine, ⟨q, hq, hsame, (hproof.encode_of_decode hq).2⟩, ?_, hcount _ 1 rfl⟩
  exact hkey.decode_encode
    ⟨hdoubled, hrotated, hrotated, hrotated, hinputs, List.cons_ne_nil _ _⟩

end ArrowCircuit
