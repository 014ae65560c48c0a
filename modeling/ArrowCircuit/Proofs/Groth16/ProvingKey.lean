import ArrowCircuit.Groth16.ProvingKey
import ArrowCircuit.Proofs.Curve.Laws

/-!
# Proving keys survive their byte form

The reader finds every section of a key where the writer put it, provided the counts of the header
say how long the lists are and fit their four bytes.
-/

namespace ArrowCircuit.Groth16.ProvingKey

variable {S : PairingSuite} {IsValid₁ : S.g1.Point → Prop} {IsValid₂ : S.g2.Point → Prop}
  {Related₁ : S.g1.Point → S.g1.Point → Prop} {Related₂ : S.g2.Point → S.g2.Point → Prop}
  (h₁ : S.g1.Survives IsValid₁ Related₁) (h₂ : S.g2.Survives IsValid₂ Related₂)
  {G₁ G₂ : Type} [AddCommGroup G₁] [AddCommGroup G₂] (M₁ : S.g1.Models G₁) (M₂ : S.g2.Models G₂)

/-- A key of valid points. -/
structure Valid (IsValid₁ : S.g1.Point → Prop) (IsValid₂ : S.g2.Point → Prop)
    (k : ProvingKey S) : Prop where
  alpha : IsValid₁ k.alpha
  beta₁ : IsValid₁ k.beta₁
  beta₂ : IsValid₂ k.beta₂
  delta₁ : IsValid₁ k.delta₁
  delta₂ : IsValid₂ k.delta₂
  aQuery : ∀ p ∈ k.aQuery, IsValid₁ p
  b₁Query : ∀ p ∈ k.b₁Query, IsValid₁ p
  b₂Query : ∀ p ∈ k.b₂Query, IsValid₂ p
  hQuery : ∀ p ∈ k.hQuery, IsValid₁ p
  lQuery : ∀ p ∈ k.lQuery, IsValid₁ p

/-- Two keys of the same header and related points, place by place. -/
structure Related (Related₁ : S.g1.Point → S.g1.Point → Prop)
    (Related₂ : S.g2.Point → S.g2.Point → Prop) (k l : ProvingKey S) : Prop where
  numWitnesses : k.numWitnesses = l.numWitnesses
  domainSize : k.domainSize = l.domainSize
  indices : k.indices = l.indices
  alpha : Related₁ k.alpha l.alpha
  beta₁ : Related₁ k.beta₁ l.beta₁
  beta₂ : Related₂ k.beta₂ l.beta₂
  delta₁ : Related₁ k.delta₁ l.delta₁
  delta₂ : Related₂ k.delta₂ l.delta₂
  aQuery : List.Forall₂ Related₁ k.aQuery l.aQuery
  b₁Query : List.Forall₂ Related₁ k.b₁Query l.b₁Query
  b₂Query : List.Forall₂ Related₂ k.b₂Query l.b₂Query
  hQuery : List.Forall₂ Related₁ k.hQuery l.hQuery
  lQuery : List.Forall₂ Related₁ k.lQuery l.lQuery

/-- Two keys of the same header and the same points. -/
abbrev Same (k l : ProvingKey S) : Prop := k.Related M₁.Same M₂.Same l

/-- The counts of the header are those of the lists, and all numbers of the header have four bytes. -/
structure WellFormed (k : ProvingKey S) : Prop where
  domainSize_pos : 0 < k.domainSize
  length_aQuery : k.aQuery.length = k.numWitnesses
  length_b₁Query : k.b₁Query.length = k.numWitnesses
  length_b₂Query : k.b₂Query.length = k.numWitnesses
  length_hQuery : k.hQuery.length = k.domainSize - 1
  length_lQuery : k.lQuery.length = k.numWitnesses
  numWitnesses_lt : k.numWitnesses < 256 ^ 4
  domainSize_lt : k.domainSize < 256 ^ 4
  length_indices_lt : k.indices.length < 256 ^ 4
  indices_lt : ∀ i ∈ k.indices, i < 256 ^ 4

variable {k : ProvingKey S}

/-! ## The header -/

theorem headerFits_iff :
    k.headerFits = true ↔ k.numWitnesses < 2 ^ 32 ∧ k.domainSize < 2 ^ 32 ∧
      k.indices.length < 2 ^ 32 ∧ ∀ i ∈ k.indices, i < 2 ^ 32 := by
  simp only [headerFits, Nat.pow_eq, List.all_eq_true, decide_eq_true_eq, List.forall_mem_cons]

theorem WellFormed.headerFits (hk : k.WellFormed) : k.headerFits = true :=
  headerFits_iff.mpr
    ⟨hk.numWitnesses_lt, hk.domainSize_lt, hk.length_indices_lt, hk.indices_lt⟩

/-- The counts and the indices. -/
def header (k : ProvingKey S) : Bytes :=
  Bytes.bigEndian 4 k.numWitnesses ++ (Bytes.bigEndian 4 k.domainSize ++
    (Bytes.bigEndian 4 k.indices.length ++ k.indices.flatMap (Bytes.bigEndian 4)))

/-- The points behind the header. -/
def body (k : ProvingKey S) : Bytes :=
  S.g1.encode k.alpha ++ (S.g1.encode k.beta₁ ++ (S.g2.encode k.beta₂ ++ (S.g1.encode k.delta₁ ++
    (S.g2.encode k.delta₂ ++ (S.g1.encodeList k.aQuery ++ (S.g1.encodeList k.b₁Query ++
      (S.g2.encodeList k.b₂Query ++ (S.g1.encodeList k.hQuery ++
        (S.g1.encodeList k.lQuery ++ [])))))))))

theorem encode_eq (k : ProvingKey S) : k.encode = k.header ++ k.body := by
  simp only [encode, header, body, List.append_assoc, List.append_nil]

theorem length_header (k : ProvingKey S) : k.header.length = 12 + 4 * k.indices.length := by
  simp only [header, List.length_append, Bytes.length_bigEndian,
    Bytes.length_flatMap (Bytes.length_bigEndian 4)]
  omega

/-- The counts and indices are read back. -/
theorem header_encode (hk : k.WellFormed) :
    (k.encode.slice 0 4).toNat = k.numWitnesses ∧ (k.encode.slice 4 4).toNat = k.domainSize ∧
      (k.encode.slice 8 4).toNat = k.indices.length ∧
      (List.range k.indices.length).map (fun i => (k.encode.slice (12 + 4 * i) 4).toNat) =
        k.indices := by
  have hn : k.encode.At 0 (Bytes.bigEndian 4 k.numWitnesses ++ (Bytes.bigEndian 4 k.domainSize ++
      (Bytes.bigEndian 4 k.indices.length ++ (k.indices.flatMap (Bytes.bigEndian 4) ++ k.body)))) := by
    rw [Bytes.At, List.drop_zero, encode_eq, header]
    simp only [List.append_assoc]
  have hd := hn.next (Bytes.length_bigEndian _ _)
  have hm := hd.next (Bytes.length_bigEndian _ _)
  have hindices := hm.next (Bytes.length_bigEndian _ _)
  refine ⟨?_, ?_, ?_, ?_⟩
  · rw [hn.slice_eq (Bytes.length_bigEndian _ _), Bytes.toNat_bigEndian_of_lt hk.numWitnesses_lt]
  · rw [hd.slice_eq (Bytes.length_bigEndian _ _), Bytes.toNat_bigEndian_of_lt hk.domainSize_lt]
  · rw [hm.slice_eq (Bytes.length_bigEndian _ _), Bytes.toNat_bigEndian_of_lt hk.length_indices_lt]
  · refine List.ext_getElem (by simp) fun i hi hi' => ?_
    have hslice := hindices.slice_flatMap (Bytes.length_bigEndian 4) hi'
    rw [show 0 + 4 + 4 + 4 + i * 4 = 12 + 4 * i by omega] at hslice
    rw [List.getElem_map, List.getElem_range, hslice,
      Bytes.toNat_bigEndian_of_lt (hk.indices_lt _ (List.getElem_mem hi'))]

/-! ## The points -/

include h₁ h₂ in
theorem length_body (hk : k.WellFormed) :
    k.body.length = bodySize S k.numWitnesses k.domainSize := by
  obtain ⟨d, hd⟩ := Nat.exists_eq_succ_of_ne_zero hk.domainSize_pos.ne'
  simp only [body, List.length_append, List.length_nil, h₁.length_encode, h₂.length_encode,
    h₁.length_encodeList, h₂.length_encodeList, hk.length_aQuery, hk.length_b₁Query,
    hk.length_b₂Query, hk.length_hQuery, hk.length_lQuery, bodySize, hd, Nat.succ_eq_add_one,
    Nat.add_sub_cancel]
  simp only [Nat.mul_add, Nat.add_mul, Nat.mul_left_comm _ 2]
  omega

include h₁ h₂ in
/-- **Proving keys.** A well-formed key of valid points is read back with the same header and related
points. -/
theorem related_decode_encode (hk : k.WellFormed) (hpoints : k.Valid IsValid₁ IsValid₂) :
    ∃ l, decode S k.encode = .ok l ∧ k.Related Related₁ Related₂ l := by
  obtain ⟨hn, hd, hm, hindices⟩ := header_encode hk
  have hlen : k.encode.length = 12 + 4 * k.indices.length +
      bodySize S k.numWitnesses k.domainSize := by
    rw [encode_eq, List.length_append, length_header, length_body h₁ h₂ hk]
  have hbody : k.encode.At 0 (k.header ++ k.body) := by
    rw [Bytes.At, List.drop_zero, encode_eq]
  have halpha := hbody.next (length_header k)
  rw [Nat.zero_add, body] at halpha
  generalize hstart : 12 + 4 * k.indices.length = start at halpha
  -- one step along the bytes for each point and each list
  have hbeta₁ := halpha.next (h₁.length_encode _)
  have hbeta₂ := hbeta₁.next (h₁.length_encode _)
  have hdelta₁ := hbeta₂.next (h₂.length_encode _)
  have hdelta₂ := hdelta₁.next (h₁.length_encode _)
  have haQuery := hdelta₂.next (h₂.length_encode _)
  have hb₁Query := haQuery.next (h₁.length_encodeList _)
  have hb₂Query := hb₁Query.next (h₁.length_encodeList _)
  have hhQuery := hb₂Query.next (h₂.length_encodeList _)
  have hlQuery := hhQuery.next (h₁.length_encodeList _)
  rw [hk.length_aQuery] at hb₁Query hb₂Query hhQuery hlQuery
  rw [hk.length_b₁Query] at hb₂Query hhQuery hlQuery
  rw [hk.length_b₂Query] at hhQuery hlQuery
  rw [hk.length_hQuery] at hlQuery
  obtain ⟨alpha, hdalpha, hsalpha⟩ := h₁.decode_at halpha hpoints.alpha
  obtain ⟨beta₁, hdbeta₁, hsbeta₁⟩ := h₁.decode_at hbeta₁ hpoints.beta₁
  obtain ⟨beta₂, hdbeta₂, hsbeta₂⟩ := h₂.decode_at hbeta₂ hpoints.beta₂
  obtain ⟨delta₁, hddelta₁, hsdelta₁⟩ := h₁.decode_at hdelta₁ hpoints.delta₁
  obtain ⟨delta₂, hddelta₂, hsdelta₂⟩ := h₂.decode_at hdelta₂ hpoints.delta₂
  obtain ⟨aQuery, hda, hsa⟩ := h₁.decodeList_at haQuery hpoints.aQuery
  obtain ⟨b₁Query, hdb₁, hsb₁⟩ := h₁.decodeList_at hb₁Query hpoints.b₁Query
  obtain ⟨b₂Query, hdb₂, hsb₂⟩ := h₂.decodeList_at hb₂Query hpoints.b₂Query
  obtain ⟨hQuery, hdh, hsh⟩ := h₁.decodeList_at hhQuery hpoints.hQuery
  obtain ⟨lQuery, hdl, hsl⟩ := h₁.decodeList_at hlQuery hpoints.lQuery
  refine ⟨⟨k.numWitnesses, k.domainSize, k.indices, alpha, beta₁, beta₂, delta₁, delta₂, aQuery,
    b₁Query, b₂Query, hQuery, lQuery⟩, ?_, rfl, rfl, rfl, hsalpha, hsbeta₁, hsbeta₂, hsdelta₁,
    hsdelta₂, hsa, hsb₁, hsb₂, hsh, hsl⟩
  -- the offsets as the reader computes them
  have hlists : start + S.g1.size + S.g1.size + S.g2.size + S.g1.size + S.g2.size =
      start + 3 * S.g1.size + 2 * S.g2.size := by omega
  have hrest : start + 3 * S.g1.size + 2 * S.g2.size + k.numWitnesses * S.g1.size +
      k.numWitnesses * S.g1.size + k.numWitnesses * S.g2.size =
      start + 3 * S.g1.size + 2 * S.g2.size + k.numWitnesses * (2 * S.g1.size + S.g2.size) := by ring
  have hle : S.g1.size ≤ k.domainSize * S.g1.size := Nat.le_mul_of_pos_left _ hk.domainSize_pos
  rw [show start + S.g1.size + S.g1.size = start + 2 * S.g1.size by omega] at hdbeta₂ hddelta₁
  rw [show start + S.g1.size + S.g1.size + S.g2.size + S.g1.size =
    start + 3 * S.g1.size + S.g2.size by omega] at hddelta₂
  rw [hlists, hk.length_aQuery] at hda
  rw [hlists, hk.length_b₁Query] at hdb₁
  rw [hlists, hk.length_b₂Query, show start + 3 * S.g1.size + 2 * S.g2.size +
    k.numWitnesses * S.g1.size + k.numWitnesses * S.g1.size =
    start + 3 * S.g1.size + 2 * S.g2.size + k.numWitnesses * (2 * S.g1.size) by ring] at hdb₂
  rw [hlists, hrest, hk.length_hQuery] at hdh
  rw [hlists, hrest, hk.length_lQuery, Nat.sub_mul, Nat.one_mul, ← Nat.add_sub_assoc hle] at hdl
  have hshort : ¬(start + bodySize S k.numWitnesses k.domainSize < 12 ∨
      start + bodySize S k.numWitnesses k.domainSize < start) := by omega
  rw [decode, hn, hd, hm, hindices, hstart, hlen, hstart, if_neg hshort]
  dsimp only
  rw [if_neg (not_not.mpr rfl), hdalpha, hdbeta₁, hdbeta₂, hddelta₁, hddelta₂, hda, hdb₁, hdb₂, hdh,
    hdl]
  rfl

variable {M₁ M₂}

theorem decode_encode (hk : k.WellFormed) (hpoints : k.Same M₁ M₂ k) :
    ∃ l, decode S k.encode = .ok l ∧ k.Same M₁ M₂ l := by
  have hvalid : k.Valid M₁.IsPoint M₂.IsPoint :=
    ⟨hpoints.alpha.1, hpoints.beta₁.1, hpoints.beta₂.1, hpoints.delta₁.1, hpoints.delta₂.1,
      PointGroup.Models.isPoint_of_forall₂ hpoints.aQuery,
      PointGroup.Models.isPoint_of_forall₂ hpoints.b₁Query,
      PointGroup.Models.isPoint_of_forall₂ hpoints.b₂Query,
      PointGroup.Models.isPoint_of_forall₂ hpoints.hQuery,
      PointGroup.Models.isPoint_of_forall₂ hpoints.lQuery⟩
  exact related_decode_encode M₁.survives M₂.survives hk hvalid

end ArrowCircuit.Groth16.ProvingKey
