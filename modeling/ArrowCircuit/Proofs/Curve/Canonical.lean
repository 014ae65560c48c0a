import ArrowCircuit.Proofs.Curve.Laws

/-!
# Canonical byte formats

A byte format is canonical if what is read is written as the bytes that were read, so that no value has
two encodings, and every valid value is read back.  The format of points is canonical for every curve
whose arithmetic does what its operations say (`CurveArithmetic.Lawful`): the zero of the curve and the
coordinates are told apart, and membership is the equation of the curve.  Nothing is asked of the group
law, and the points need not lie in the group of the generator.
-/

namespace ArrowCircuit

/-- A byte format of values, of which several may be the same. -/
structure CanonicalFormat {α ε : Type} (IsValid : α → Prop) (Same : α → α → Prop)
    (encode : α → Bytes) (decode : Bytes → Except ε α) : Prop where
  /-- What is read is valid, and is written as the bytes that were read. -/
  encode_of_decode : ∀ {bs a}, decode bs = .ok a → IsValid a ∧ encode a = bs
  /-- No value is read from two byte strings. -/
  unique : ∀ {bs bs' a a'}, decode bs = .ok a → decode bs' = .ok a' → Same a a' → bs = bs'
  /-- A valid value is read back. -/
  decode_encode : ∀ {a}, IsValid a → ∃ a', decode (encode a) = .ok a' ∧ Same a a'

/-- A format in which the same values are written alike is canonical if it reads back in both
directions. -/
theorem CanonicalFormat.of_congr {α ε : Type} {IsValid : α → Prop} {Same : α → α → Prop}
    {encode : α → Bytes} {decode : Bytes → Except ε α}
    (hdecode : ∀ {bs a}, decode bs = .ok a → IsValid a ∧ encode a = bs)
    (hcongr : ∀ {a a'}, Same a a' → encode a = encode a')
    (hencode : ∀ {a}, IsValid a → ∃ a', decode (encode a) = .ok a' ∧ Same a a') :
    CanonicalFormat IsValid Same encode decode where
  encode_of_decode := hdecode
  unique := by
    intro bs bs' a a' ha ha' hsame
    rw [← (hdecode ha).2, ← (hdecode ha').2, hcongr hsame]
  decode_encode := hencode

/-- Two lists that are written alike element by element are written alike. -/
theorem flatMap_eq_of_forall₂ {α β : Type} {f : α → Bytes} {g : β → Bytes} {as : List α}
    {bs : List β} (h : List.Forall₂ (fun a b => f a = g b) as bs) : as.flatMap f = bs.flatMap g := by
  induction h with
  | nil => rfl
  | cons h _ ih => rw [List.flatMap_cons, List.flatMap_cons, h, ih]

/-- A group of points whose byte format is canonical. -/
structure PointGroup.Exact (g : PointGroup) (IsValid : g.Point → Prop)
    (Same : g.Point → g.Point → Prop) : Prop extends g.Survives IsValid Same where
  encode_of_decode : ∀ {bs p}, g.decode bs = .ok p → IsValid p ∧ g.encode p = bs
  encode_congr : ∀ {p q}, Same p q → g.encode p = g.encode q

namespace PointGroup.Exact

variable {g : PointGroup} {IsValid : g.Point → Prop} {Same : g.Point → g.Point → Prop}
  (hg : g.Exact IsValid Same)

include hg

theorem canonicalFormat : CanonicalFormat IsValid Same g.encode g.decode :=
  .of_congr hg.encode_of_decode hg.encode_congr hg.decode_encode

/-- Points that are read one after the other are valid, and are written as the section they were read
from. -/
theorem encodeList_of_decodeList {bs : Bytes} {start count : Nat} {ps : List g.Point}
    (h : g.decodeList bs start count = .ok ps) :
    ps.length = count ∧ (∀ p ∈ ps, IsValid p) ∧
      g.encodeList ps = bs.slice start (count * g.size) := by
  have hread := mapM_eq_ok_iff.mp h
  refine ⟨hread.length_eq.symm.trans List.length_range, ?_, ?_⟩
  · intro p hp
    obtain ⟨i, hi, hget⟩ := List.mem_iff_getElem.mp hp
    have hi' : i < (List.range count).length := hread.length_eq ▸ hi
    have hdecode := hread.get hi' hi
    rw [List.get_eq_getElem, List.get_eq_getElem, hget] at hdecode
    exact (hg.encode_of_decode hdecode).1
  · have hslices : List.Forall₂ (fun i p => bs.slice (start + i * g.size) g.size = g.encode p)
        (List.range count) ps := hread.imp fun _ _ h => (hg.encode_of_decode h).2.symm
    rw [encodeList, ← flatMap_eq_of_forall₂ hslices, Bytes.flatMap_slice]

end PointGroup.Exact

/-! ## Words -/

/-- Coordinates that are determined by their words, whatever words there are. -/
class WordFormat.Full (F : Type) [Coordinate F] [WordFormat F] : Prop where
  width_pos : 0 < WordFormat.width F
  words_ofWords : ∀ {ws : List Fq}, ws.length = WordFormat.width F →
    WordFormat.words (WordFormat.ofWords ws : F) = ws

instance : WordFormat.Full Fq where
  width_pos := Nat.one_pos
  words_ofWords := by
    intro ws h
    obtain ⟨w, rfl⟩ := List.length_eq_one_iff.mp h
    rfl

instance : WordFormat.Full Fq2 where
  width_pos := Nat.two_pos
  words_ofWords := by
    intro ws h
    obtain ⟨w, w', rfl⟩ := List.length_eq_two.mp h
    rfl

namespace Fq

/-- A word that is read is written as it was. -/
theorem word_of_wordAt {bs : Bytes} {i : Nat} {a : Fq} (hlen : (i + 1) * wordSize ≤ bs.length)
    (h : wordAt bs i = .ok a) : bs.slice (i * wordSize) wordSize = word a := by
  have hslice : (bs.slice (i * wordSize) wordSize).length = wordSize :=
    Bytes.length_slice (by rwa [← Nat.succ_mul])
  have hval : a.val = Bytes.toNat (bs.slice (i * wordSize) wordSize) := by
    rw [wordAt, ofNat?] at h
    split at h
    · next x hx =>
        cases h
        split at hx
        · cases hx
          rfl
        · cases hx
    · cases h
  have hwritten := Bytes.bigEndian_toNat (bs.slice (i * wordSize) wordSize)
  rw [hslice] at hwritten
  rw [word, hval, hwritten]

/-- A byte string whose words are read consists of them. -/
theorem eq_flatMap_word {bs : Bytes} {count : Nat} {ws : List Fq}
    (hlen : bs.length = count * wordSize) (h : (List.range count).mapM (wordAt bs) = .ok ws) :
    bs = ws.flatMap word ∧ ws.length = count := by
  have hread := mapM_eq_ok_iff.mp h
  have hcount : ws.length = count := hread.length_eq.symm.trans List.length_range
  have hwords : List.Forall₂ (fun i a => bs.slice (0 + i * wordSize) wordSize = word a)
      (List.range count) ws := by
    refine List.forall₂_iff_get.mpr ⟨hread.length_eq, fun i hi hi' => ?_⟩
    have hword := hread.get hi hi'
    simp only [List.get_eq_getElem, List.getElem_range] at hword ⊢
    rw [Nat.zero_add]
    refine word_of_wordAt ?_ hword
    rw [hlen]
    exact Nat.mul_le_mul_right _ (hcount ▸ hi')
  refine ⟨?_, hcount⟩
  rw [← flatMap_eq_of_forall₂ hwords, Bytes.flatMap_slice, ← hlen, Bytes.slice_zero_length]

end Fq

/-! ## Points -/

namespace CurveArithmetic

section Laws

variable {F : Type} [Coordinate F]

/-- The equation of a curve. -/
def Equation (b x y : F) : Prop := y * y = x * x * x + b

/-- The operations that the byte format uses do what they say, for the curve `y² = x³ + b` that does
not go through the origin. -/
structure Lawful (C : CurveArithmetic F) (b : F) : Prop where
  isZero_zero : C.isZero C.zero = true
  isZero_ofAffine : ∀ x y, C.isZero (C.ofAffine x y) = false
  toAffine_ofAffine : ∀ x y, C.toAffine (C.ofAffine x y) = (x, y)
  isOnCurve_of_isZero : ∀ {p}, C.isZero p = true → C.isOnCurve p = true
  isOnCurve_iff : ∀ {p}, C.isZero p = false →
    (C.isOnCurve p = true ↔ Equation b (C.toAffine p).1 (C.toAffine p).2)
  not_equation_origin : ¬Equation b Coordinate.zero Coordinate.zero

variable (C : CurveArithmetic F)

/-- A point lies on the curve. -/
def OnCurve (p : C.Point) : Prop := C.isOnCurve p = true

/-- Two forms of one point: both are zero, or they have the same coordinates. -/
def SamePoint (p q : C.Point) : Prop :=
  C.isZero p = C.isZero q ∧ (C.isZero p = false → C.toAffine p = C.toAffine q)

variable {C} {b : F} (h : C.Lawful b)

include h

theorem Lawful.onCurve_zero : C.OnCurve C.zero := h.isOnCurve_of_isZero h.isZero_zero

theorem Lawful.onCurve_ofAffine_iff {x y : F} : C.OnCurve (C.ofAffine x y) ↔ Equation b x y := by
  rw [OnCurve, h.isOnCurve_iff (h.isZero_ofAffine x y), h.toAffine_ofAffine]

theorem Lawful.onCurve_toAffine {p : C.Point} (hzero : C.isZero p = false) (hp : C.OnCurve p) :
    C.OnCurve (C.ofAffine (C.toAffine p).1 (C.toAffine p).2) :=
  h.onCurve_ofAffine_iff.mpr ((h.isOnCurve_iff hzero).mp hp)

theorem Lawful.not_onCurve_origin :
    C.isOnCurve (C.ofAffine Coordinate.zero Coordinate.zero) = false :=
  Bool.eq_false_iff.mpr fun horigin => h.not_equation_origin (h.onCurve_ofAffine_iff.mp horigin)

end Laws

section Format

variable {F : Type} [Coordinate F] [WordFormat F] {C : CurveArithmetic F} {b : F}

/-- A point is read from the words of its coordinates. -/
theorem exists_words_of_decode {name : String} {bs : Bytes} {p : C.Point}
    (h : C.decode name bs = .ok p) :
    ∃ ws : List Fq, ws.length = 2 * WordFormat.width F ∧ bs = ws.flatMap Fq.word := by
  rw [decode] at h
  split at h
  · cases h
  · next hlen =>
      obtain ⟨ws, hws, -⟩ := bind_eq_ok h
      obtain ⟨hbs, hcount⟩ := Fq.eq_flatMap_word (not_not.mp hlen) hws
      exact ⟨ws, hcount, hbs⟩

/-- The bytes of a point depend on the point and not on its form. -/
theorem encode_congr {p q : C.Point} (h : C.SamePoint p q) : C.encode p = C.encode q := by
  rw [encode, encode, ← h.1]
  cases hzero : C.isZero p with
  | true => rfl
  | false => rw [h.2 hzero]

/-- **Reading and writing.** A point that is read lies on the curve, and is written as the bytes that
it was read from. -/
theorem Lawful.encode_of_decode [WordFormat.Full F] (hC : C.Lawful b) {name : String} {bs : Bytes}
    {p : C.Point} (h : C.decode name bs = .ok p) : C.OnCurve p ∧ C.encode p = bs := by
  obtain ⟨ws, hlen, rfl⟩ := exists_words_of_decode h
  rw [decode_flatMap_word name hlen] at h
  split at h
  · next hall =>
      -- all words are zero, and so are the bytes
      cases h
      have hzero : ws = List.replicate (2 * WordFormat.width F) Coordinate.zero := by
        refine List.eq_replicate_iff.mpr ⟨hlen, fun w hw => ?_⟩
        exact (Fq.val_eq_zero_iff w).mp (of_decide_eq_true (List.all_eq_true.mp hall w hw))
      refine ⟨hC.onCurve_zero, ?_⟩
      rw [encode, if_pos hC.isZero_zero, zeros_pointSize, hzero]
  · dsimp only at h
    split at h
    · next hcurve =>
        cases h
        have htake : (ws.take (WordFormat.width F)).length = WordFormat.width F := by
          rw [List.length_take, hlen]
          omega
        have hdrop : (ws.drop (WordFormat.width F)).length = WordFormat.width F := by
          rw [List.length_drop, hlen]
          omega
        refine ⟨hcurve, ?_⟩
        rw [encode, hC.isZero_ofAffine, if_neg Bool.false_ne_true, hC.toAffine_ofAffine]
        dsimp only
        rw [WordFormat.Full.words_ofWords htake, WordFormat.Full.words_ofWords hdrop,
          List.take_append_drop]
    · cases h

/-- **Writing and reading.** A point on the curve, in whatever form, is read back as the same point. -/
theorem Lawful.decode_encode (hC : C.Lawful b) (name : String) {p : C.Point} (hp : C.OnCurve p) :
    ∃ q, C.decode name (C.encode p) = .ok q ∧ C.SamePoint p q := by
  cases hzero : C.isZero p with
  | true =>
      refine ⟨C.zero, decode_encode_of_isZero name hzero, ?_, fun h => ?_⟩
      · rw [hzero, hC.isZero_zero]
      · rw [hzero] at h
        cases h
  | false =>
      refine ⟨_, decode_encode_of_toAffine name hzero rfl (hC.onCurve_toAffine hzero hp)
        hC.not_onCurve_origin, ?_, fun _ => ?_⟩
      · rw [hzero, hC.isZero_ofAffine]
      · rw [hC.toAffine_ofAffine]

theorem Lawful.exact [WordFormat.Full F] (hC : C.Lawful b) (name : String) :
    (C.pointGroup name).Exact C.OnCurve C.SamePoint where
  size_pos := Nat.mul_pos (Nat.mul_pos Nat.two_pos WordFormat.Full.width_pos) (by decide)
  length_encode := length_encode
  decode_encode := hC.decode_encode name
  encode_of_decode := hC.encode_of_decode
  encode_congr := encode_congr

end Format

end CurveArithmetic

end ArrowCircuit
