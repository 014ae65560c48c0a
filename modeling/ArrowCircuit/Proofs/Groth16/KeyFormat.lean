import ArrowCircuit.Proofs.Groth16.ProvingKey
import ArrowCircuit.Proofs.Wire.Canonical

/-!
# The byte form of proving keys

A key on the curves whose header says how long its lists are survives its byte form.  In the other
direction the reader takes its offsets from a header that may say anything.  With a domain of at least one
point the sections cover the byte string once and in order, and what is read is written as it was.  An
empty domain is taken for a list of minus one points: the reader steps back by one point, and the last list
begins inside the section before it.
-/

namespace ArrowCircuit.Groth16.ProvingKey

variable {S : PairingSuite}

/-- A key of points on the curves. -/
def OnCurve (k : ProvingKey S) : Prop := k.Valid S.curve.OnCurve S.twist.OnCurve

/-- Two keys of the same header and the same points. -/
def SamePoints (k l : ProvingKey S) : Prop := k.Related S.curve.SamePoint S.twist.SamePoint l

/-! ## What the reader reads -/

/-- The place behind the header. -/
def bodyStart (k : ProvingKey S) : Nat := 12 + 4 * k.indices.length

/-- The place behind the single points. -/
def listStart (k : ProvingKey S) : Nat := k.bodyStart + 3 * S.g1.size + 2 * S.g2.size

/-- The place behind the first three lists. -/
def tailStart (k : ProvingKey S) : Nat := k.listStart + k.numWitnesses * (2 * S.g1.size + S.g2.size)

/-- Where in a byte string the parts of a key are read from. -/
structure ReadFrom (bs : Bytes) (k : ProvingKey S) : Prop where
  numWitnesses : (bs.slice 0 4).toNat = k.numWitnesses
  domainSize : (bs.slice 4 4).toNat = k.domainSize
  length_indices : (bs.slice 8 4).toNat = k.indices.length
  indices : (List.range k.indices.length).map (fun i => (bs.slice (12 + 4 * i) 4).toNat) = k.indices
  length_eq : bs.length = k.bodyStart + bodySize S k.numWitnesses k.domainSize
  alpha : S.g1.decode (bs.slice k.bodyStart S.g1.size) = .ok k.alpha
  beta₁ : S.g1.decode (bs.slice (k.bodyStart + S.g1.size) S.g1.size) = .ok k.beta₁
  beta₂ : S.g2.decode (bs.slice (k.bodyStart + 2 * S.g1.size) S.g2.size) = .ok k.beta₂
  delta₁ : S.g1.decode (bs.slice (k.bodyStart + 2 * S.g1.size + S.g2.size) S.g1.size) = .ok k.delta₁
  delta₂ : S.g2.decode (bs.slice (k.bodyStart + 3 * S.g1.size + S.g2.size) S.g2.size) = .ok k.delta₂
  aQuery : S.g1.decodeList bs k.listStart k.numWitnesses = .ok k.aQuery
  b₁Query : S.g1.decodeList bs (k.listStart + k.numWitnesses * S.g1.size) k.numWitnesses =
    .ok k.b₁Query
  b₂Query : S.g2.decodeList bs (k.listStart + k.numWitnesses * (2 * S.g1.size)) k.numWitnesses =
    .ok k.b₂Query
  hQuery : S.g1.decodeList bs k.tailStart (k.domainSize - 1) = .ok k.hQuery
  lQuery : S.g1.decodeList bs (k.tailStart + k.domainSize * S.g1.size - S.g1.size) k.numWitnesses =
    .ok k.lQuery

theorem readFrom_of_decode {bs : Bytes} {k : ProvingKey S} (h : decode S bs = .ok k) :
    k.ReadFrom bs := by
  rw [decode] at h
  dsimp only at h
  generalize hm : (bs.slice 8 4).toNat = m at h
  generalize hindices : (List.range m).map (fun i => (bs.slice (12 + 4 * i) 4).toNat) = indices at h
  -- the count is that of the indices, so that the places are those of the key
  have hcount : m = indices.length := by rw [← hindices, List.length_map, List.length_range]
  subst hcount
  split at h
  · cases h
  · split at h
    · cases h
    · next hlen =>
        obtain ⟨alpha, halpha, h⟩ := bind_eq_ok h
        obtain ⟨beta₁, hbeta₁, h⟩ := bind_eq_ok h
        obtain ⟨beta₂, hbeta₂, h⟩ := bind_eq_ok h
        obtain ⟨delta₁, hdelta₁, h⟩ := bind_eq_ok h
        obtain ⟨delta₂, hdelta₂, h⟩ := bind_eq_ok h
        obtain ⟨aQuery, ha, h⟩ := bind_eq_ok h
        obtain ⟨b₁Query, hb₁, h⟩ := bind_eq_ok h
        obtain ⟨b₂Query, hb₂, h⟩ := bind_eq_ok h
        obtain ⟨hQuery, hh, h⟩ := bind_eq_ok h
        obtain ⟨lQuery, hl, h⟩ := bind_eq_ok h
        cases h
        exact ⟨rfl, rfl, hm, hindices, not_not.mp hlen, mapError_eq_ok halpha,
          mapError_eq_ok hbeta₁, mapError_eq_ok hbeta₂, mapError_eq_ok hdelta₁,
          mapError_eq_ok hdelta₂, mapError_eq_ok ha, mapError_eq_ok hb₁, mapError_eq_ok hb₂,
          mapError_eq_ok hh, mapError_eq_ok hl⟩

/-! ## What is read is written -/

namespace ReadFrom

variable {bs : Bytes} {k : ProvingKey S} (h : k.ReadFrom bs)

include h

theorem bodyStart_le : k.bodyStart ≤ bs.length := by
  rw [h.length_eq]
  omega

theorem flatMap_indices :
    k.indices.flatMap (Bytes.bigEndian 4) = bs.slice 12 (k.indices.length * 4) := by
  have hlen := h.bodyStart_le
  rw [bodyStart] at hlen
  rw [← Bytes.flatMap_slice, ← h.indices, List.flatMap_map, List.length_map, List.length_range]
  refine List.flatMap_congr fun i hi => ?_
  have hi : i < k.indices.length := List.mem_range.mp hi
  rw [Nat.mul_comm i 4]
  exact Bytes.bigEndian_slice (by omega)

theorem index_lt : ∀ i ∈ k.indices, i < 256 ^ 4 := by
  rw [← h.indices]
  intro i hi
  obtain ⟨j, -, rfl⟩ := List.mem_map.mp hi
  exact bs.toNat_slice_lt _ 4

theorem headerFits : k.headerFits = true :=
  headerFits_iff.mpr ⟨h.numWitnesses ▸ bs.toNat_slice_lt 0 4, h.domainSize ▸ bs.toNat_slice_lt 4 4,
    h.length_indices ▸ bs.toNat_slice_lt 8 4, h.index_lt⟩

theorem header_eq : k.header = bs.take k.bodyStart := by
  have hlen := h.bodyStart_le
  rw [bodyStart] at hlen
  have hstart : ∀ rest, bs.slice 0 4 ++ rest = bs.take 4 ++ rest := fun _ => rfl
  rw [header, ← List.append_nil (k.indices.flatMap _), h.flatMap_indices, ← h.numWitnesses,
    ← h.domainSize, ← h.length_indices, Bytes.bigEndian_slice (by omega),
    Bytes.bigEndian_slice (by omega), Bytes.bigEndian_slice (by omega), h.length_indices, hstart,
    bs.take_append_slice (b := 8) rfl, bs.take_append_slice (b := 12) rfl,
    bs.take_append_slice (b := k.bodyStart) (by rw [bodyStart, Nat.mul_comm]), List.append_nil]

end ReadFrom

section Exact

variable {IsValid₁ : S.g1.Point → Prop} {IsValid₂ : S.g2.Point → Prop}
  {Same₁ : S.g1.Point → S.g1.Point → Prop} {Same₂ : S.g2.Point → S.g2.Point → Prop}
  (h₁ : S.g1.Exact IsValid₁ Same₁) (h₂ : S.g2.Exact IsValid₂ Same₂)
  {bs : Bytes} {k : ProvingKey S} (h : k.ReadFrom bs)

include h₁ h₂ h

theorem ReadFrom.valid : k.Valid IsValid₁ IsValid₂ where
  alpha := (h₁.encode_of_decode h.alpha).1
  beta₁ := (h₁.encode_of_decode h.beta₁).1
  beta₂ := (h₂.encode_of_decode h.beta₂).1
  delta₁ := (h₁.encode_of_decode h.delta₁).1
  delta₂ := (h₂.encode_of_decode h.delta₂).1
  aQuery := (h₁.encodeList_of_decodeList h.aQuery).2.1
  b₁Query := (h₁.encodeList_of_decodeList h.b₁Query).2.1
  b₂Query := (h₂.encodeList_of_decodeList h.b₂Query).2.1
  hQuery := (h₁.encodeList_of_decodeList h.hQuery).2.1
  lQuery := (h₁.encodeList_of_decodeList h.lQuery).2.1

/-- Up to the last two lists the sections follow one another. -/
theorem ReadFrom.encode_eq : k.encode = bs.take k.tailStart ++
    (bs.slice k.tailStart ((k.domainSize - 1) * S.g1.size) ++
      bs.slice (k.tailStart + k.domainSize * S.g1.size - S.g1.size)
        (k.numWitnesses * S.g1.size)) := by
  obtain ⟨-, halpha⟩ := h₁.encode_of_decode h.alpha
  obtain ⟨-, hbeta₁⟩ := h₁.encode_of_decode h.beta₁
  obtain ⟨-, hbeta₂⟩ := h₂.encode_of_decode h.beta₂
  obtain ⟨-, hdelta₁⟩ := h₁.encode_of_decode h.delta₁
  obtain ⟨-, hdelta₂⟩ := h₂.encode_of_decode h.delta₂
  obtain ⟨-, -, ha⟩ := h₁.encodeList_of_decodeList h.aQuery
  obtain ⟨-, -, hb₁⟩ := h₁.encodeList_of_decodeList h.b₁Query
  obtain ⟨-, -, hb₂⟩ := h₂.encodeList_of_decodeList h.b₂Query
  obtain ⟨-, -, hh⟩ := h₁.encodeList_of_decodeList h.hQuery
  obtain ⟨-, -, hl⟩ := h₁.encodeList_of_decodeList h.lQuery
  have hlists : k.bodyStart + 3 * S.g1.size + S.g2.size + S.g2.size = k.listStart := by
    rw [listStart]
    omega
  have htail : k.listStart + k.numWitnesses * (2 * S.g1.size) + k.numWitnesses * S.g2.size =
      k.tailStart := by
    rw [tailStart]
    ring
  rw [ProvingKey.encode_eq, body, h.header_eq, halpha, hbeta₁, hbeta₂, hdelta₁, hdelta₂, ha, hb₁, hb₂,
    hh, hl, List.append_nil,
    bs.take_append_slice (b := k.bodyStart + S.g1.size) rfl,
    bs.take_append_slice (b := k.bodyStart + 2 * S.g1.size) (by omega),
    bs.take_append_slice (b := k.bodyStart + 2 * S.g1.size + S.g2.size) rfl,
    bs.take_append_slice (b := k.bodyStart + 3 * S.g1.size + S.g2.size) (by omega),
    bs.take_append_slice hlists,
    bs.take_append_slice (b := k.listStart + k.numWitnesses * S.g1.size) rfl,
    bs.take_append_slice (b := k.listStart + k.numWitnesses * (2 * S.g1.size)) (by ring),
    bs.take_append_slice htail]

/-- **Keys with a domain.** The sections cover the whole byte string. -/
theorem ReadFrom.encode_of_domainSize_pos (hd : 0 < k.domainSize) : k.encode = bs := by
  obtain ⟨d, hd⟩ := Nat.exists_eq_succ_of_ne_zero hd.ne'
  have hlQuery : k.tailStart + (k.domainSize - 1) * S.g1.size =
      k.tailStart + k.domainSize * S.g1.size - S.g1.size := by
    rw [hd, Nat.succ_sub_one, Nat.succ_mul]
    omega
  have hend : k.tailStart + k.domainSize * S.g1.size - S.g1.size + k.numWitnesses * S.g1.size =
      bs.length := by
    rw [h.length_eq, tailStart, listStart, bodySize, hd, Nat.succ_mul]
    omega
  rw [h.encode_eq h₁ h₂, bs.take_append_slice hlQuery, ← List.append_nil (bs.slice _ _),
    bs.take_append_slice hend, List.append_nil, List.take_length]

theorem ReadFrom.wellFormed (hd : 0 < k.domainSize) : k.WellFormed where
  domainSize_pos := hd
  length_aQuery := (h₁.encodeList_of_decodeList h.aQuery).1
  length_b₁Query := (h₁.encodeList_of_decodeList h.b₁Query).1
  length_b₂Query := (h₂.encodeList_of_decodeList h.b₂Query).1
  length_hQuery := (h₁.encodeList_of_decodeList h.hQuery).1
  length_lQuery := (h₁.encodeList_of_decodeList h.lQuery).1
  numWitnesses_lt := h.numWitnesses ▸ bs.toNat_slice_lt 0 4
  domainSize_lt := h.domainSize ▸ bs.toNat_slice_lt 4 4
  length_indices_lt := h.length_indices ▸ bs.toNat_slice_lt 8 4
  indices_lt := h.index_lt

/-- Without a domain there is a witness: the last single point needs bytes that the expected size leaves
out. -/
theorem ReadFrom.numWitnesses_pos (hd : k.domainSize = 0) : 0 < k.numWitnesses := by
  have hpos := h₁.size_pos
  obtain ⟨-, hdelta₂⟩ := h₂.encode_of_decode h.delta₂
  have hslice : (bs.slice (k.bodyStart + 3 * S.g1.size + S.g2.size) S.g2.size).length =
      S.g2.size := by
    rw [← hdelta₂, h₂.length_encode]
  rw [Bytes.slice, List.length_take, List.length_drop, h.length_eq, bodySize, hd] at hslice
  refine Nat.pos_of_ne_zero fun hn => ?_
  have hsize₂ := h₂.size_pos
  rw [hn] at hslice
  omega

/-- **Keys without a domain.** The last list begins with the bytes that the list of points of the twist
ends with. -/
theorem ReadFrom.overlap_of_domainSize_eq_zero (hd : k.domainSize = 0) :
    ∃ front half twice back, twice.length = S.g1.size ∧
      bs = front ++ (half ++ (twice ++ back)) ∧
      S.g2.encodeList k.b₂Query = half ++ twice ∧ S.g1.encodeList k.lQuery = twice ++ back ∧
      k.encode = front ++ (half ++ (twice ++ (twice ++ back))) := by
  obtain ⟨n, hn⟩ := Nat.exists_eq_succ_of_ne_zero (h.numWitnesses_pos h₁ h₂ hd).ne'
  have hsizes : S.g2.size = 2 * S.g1.size := rfl
  generalize hstart : k.listStart + k.numWitnesses * (2 * S.g1.size) = start
  have htail : start + k.numWitnesses * S.g2.size = k.tailStart := by
    rw [← hstart, tailStart]
    ring
  have hle : S.g1.size ≤ k.numWitnesses * S.g2.size := by
    rw [hn, hsizes, Nat.succ_mul]
    omega
  -- the section of the points of the twist, cut before its last bytes
  have hcut : start + (k.numWitnesses * S.g2.size - S.g1.size) = k.tailStart - S.g1.size := by omega
  have hjoin : k.tailStart - S.g1.size + S.g1.size = k.tailStart := by omega
  have hb₂ : S.g2.encodeList k.b₂Query =
      bs.slice start (k.numWitnesses * S.g2.size - S.g1.size) ++
        bs.slice (k.tailStart - S.g1.size) S.g1.size := by
    obtain ⟨-, -, hb₂⟩ := h₂.encodeList_of_decodeList h.b₂Query
    rw [hb₂, hstart, ← hcut, Bytes.slice_append_slice, Nat.sub_add_cancel hle]
  -- the last list, cut behind its first point
  have hcount : k.numWitnesses * S.g1.size = S.g1.size + n * S.g1.size := by
    rw [hn, Nat.succ_mul, Nat.add_comm]
  have hlQuery : bs.slice (k.tailStart + k.domainSize * S.g1.size - S.g1.size)
      (k.numWitnesses * S.g1.size) =
      bs.slice (k.tailStart - S.g1.size) S.g1.size ++ bs.slice k.tailStart (n * S.g1.size) := by
    have hjoined := bs.slice_append_slice (k.tailStart - S.g1.size) S.g1.size (n * S.g1.size)
    rw [hjoin] at hjoined
    rw [hd, Nat.zero_mul, Nat.add_zero, hcount, hjoined]
  have hend : k.tailStart + n * S.g1.size = bs.length := by
    rw [h.length_eq, tailStart, listStart, bodySize, hd, hcount]
    omega
  obtain ⟨-, -, hl⟩ := h₁.encodeList_of_decodeList h.lQuery
  refine ⟨bs.take start, bs.slice start (k.numWitnesses * S.g2.size - S.g1.size),
    bs.slice (k.tailStart - S.g1.size) S.g1.size, bs.slice k.tailStart (n * S.g1.size),
    Bytes.length_slice (by omega), ?_, hb₂, hl.trans hlQuery, ?_⟩
  · rw [← List.append_nil (bs.slice k.tailStart _), bs.take_append_slice hcut,
      bs.take_append_slice hjoin, bs.take_append_slice hend, List.append_nil, List.take_length]
  · have hempty : (k.domainSize - 1) * S.g1.size = 0 := by
      rw [hd, Nat.zero_sub, Nat.zero_mul]
    rw [h.encode_eq h₁ h₂, hlQuery, hempty, bs.take_append_slice (Nat.add_zero k.tailStart),
      bs.take_append_slice hcut, bs.take_append_slice hjoin]

end Exact

/-! ## Both directions -/

/-- **Proving keys survive.** A key on the curves, with the point at infinity among its points or not, whose
header says how long its lists are and has room for its numbers, is written and read back with the same
header and the same points in every place. -/
theorem samePoints_decode_encode (S : PairingSuite) {b₁ : Fq} {b₂ : Fq2} (h₁ : S.curve.Lawful b₁)
    (h₂ : S.twist.Lawful b₂) {k : ProvingKey S} (hk : k.WellFormed) (hpoints : k.OnCurve) :
    k.headerFits = true ∧ ∃ l, decode S k.encode = .ok l ∧ k.SamePoints l := by
  have hg₁ : S.g1.Exact S.curve.OnCurve S.curve.SamePoint := h₁.exact "G1"
  have hg₂ : S.g2.Exact S.twist.OnCurve S.twist.SamePoint := h₂.exact "G2"
  exact ⟨hk.headerFits, related_decode_encode hg₁.toSurvives hg₂.toSurvives hk hpoints⟩

/-- A key for one witness and a domain of two points, with points in several projective forms. -/
def formKey : ProvingKey Projective.suite where
  numWitnesses := 1
  domainSize := 2
  indices := [0, 1]
  alpha := Projective.doubledForm
  beta₁ := Projective.infiniteForm
  beta₂ := Projective.rotatedForm
  delta₁ := Projective.doubledForm
  delta₂ := Projective.rotatedForm
  aQuery := [Projective.doubledForm]
  b₁Query := [Projective.infiniteForm]
  b₂Query := [Projective.rotatedForm]
  hQuery := [Projective.doubledForm]
  lQuery := [Projective.infiniteForm]

theorem onCurve_formKey : formKey.OnCurve := by
  have hdoubled : Projective.suite.curve.OnCurve Projective.doubledForm :=
    (by decide +kernel : Projective.doubledForm.isOnCurve curveConstant = true)
  have hinfinite : Projective.suite.curve.OnCurve Projective.infiniteForm :=
    (by decide +kernel : Projective.infiniteForm.isOnCurve curveConstant = true)
  have hrotated : Projective.suite.twist.OnCurve Projective.rotatedForm :=
    (by decide +kernel : Projective.rotatedForm.isOnCurve twistConstant = true)
  exact ⟨hdoubled, hinfinite, hrotated, hdoubled, hrotated, List.forall_mem_singleton.mpr hdoubled,
    List.forall_mem_singleton.mpr hinfinite, List.forall_mem_singleton.mpr hrotated,
    List.forall_mem_singleton.mpr hdoubled, List.forall_mem_singleton.mpr hinfinite⟩

theorem wellFormed_formKey : formKey.WellFormed := by
  constructor <;> decide

theorem samePoints_decode_encode_forms :
    ∃ l, decode Projective.suite formKey.encode = .ok l ∧ formKey.SamePoints l :=
  (samePoints_decode_encode Projective.suite Projective.lawful_curve Projective.lawful_twist
    wellFormed_formKey onCurve_formKey).2

/-- **What is accepted.** A key that is read has its points on the curves.  If its domain is not empty it is
well-formed and is written as the bytes that were read, so that these are its sections one after the other.
If the domain is empty it is not: the bytes of one point are read twice, at the end of the points of the
twist and at the start of the last list. -/
theorem encode_eq_iff_domainSize_pos (S : PairingSuite) {b₁ : Fq} {b₂ : Fq2}
    (h₁ : S.curve.Lawful b₁) (h₂ : S.twist.Lawful b₂) {bs : Bytes} {k : ProvingKey S}
    (h : decode S bs = .ok k) :
    k.OnCurve ∧ k.headerFits = true ∧ (k.encode = bs ↔ 0 < k.domainSize) ∧
      (0 < k.domainSize → k.WellFormed) ∧
      (k.domainSize = 0 → ∃ front half twice back, twice.length = S.g1.size ∧
        bs = front ++ (half ++ (twice ++ back)) ∧
        S.g2.encodeList k.b₂Query = half ++ twice ∧ S.g1.encodeList k.lQuery = twice ++ back ∧
        k.encode = front ++ (half ++ (twice ++ (twice ++ back)))) := by
  have hg₁ : S.g1.Exact S.curve.OnCurve S.curve.SamePoint := h₁.exact "G1"
  have hg₂ : S.g2.Exact S.twist.OnCurve S.twist.SamePoint := h₂.exact "G2"
  have hread := readFrom_of_decode h
  refine ⟨hread.valid hg₁ hg₂, hread.headerFits, ⟨fun hsame => ?_, hread.encode_of_domainSize_pos hg₁ hg₂⟩,
    hread.wellFormed hg₁ hg₂, hread.overlap_of_domainSize_eq_zero hg₁ hg₂⟩
  refine Nat.pos_of_ne_zero fun hd => ?_
  obtain ⟨front, half, twice, back, htwice, hbs, -, -, hencode⟩ :=
    hread.overlap_of_domainSize_eq_zero hg₁ hg₂ hd
  -- the bytes that were read are fewer by one point
  have hlen := congrArg List.length (hencode.symm.trans (hsame.trans hbs))
  have hpos := hg₁.size_pos
  simp only [List.length_append] at hlen
  omega

/-- A header of one witness, no domain and no indices, and zeros for points at infinity. -/
def emptyDomainBytes : Bytes :=
  Bytes.bigEndian 4 1 ++ (Bytes.bigEndian 4 0 ++ (Bytes.bigEndian 4 0 ++ Bytes.zeros 704))

/-- Bytes that are read as a key and are not its bytes. -/
theorem encode_eq_iff_domainSize_pos_empty :
    ∃ k, decode Projective.suite emptyDomainBytes = .ok k ∧ k.domainSize = 0 ∧
      k.encode ≠ emptyDomainBytes := by
  have hok : (decode Projective.suite emptyDomainBytes).isOk = true := by decide +kernel
  cases hread : decode Projective.suite emptyDomainBytes with
  | error e =>
      rw [hread] at hok
      cases hok
  | ok k =>
      have hdomain : k.domainSize = 0 := by
        rw [← (readFrom_of_decode hread).domainSize]
        decide
      obtain ⟨-, -, hiff, -, -⟩ := encode_eq_iff_domainSize_pos Projective.suite
        Projective.lawful_curve Projective.lawful_twist hread
      refine ⟨k, rfl, hdomain, fun hsame => ?_⟩
      have hpos := hiff.mp hsame
      omega

end ArrowCircuit.Groth16.ProvingKey
