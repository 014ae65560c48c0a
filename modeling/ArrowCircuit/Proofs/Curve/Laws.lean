import ArrowCircuit.Curve.Suite
import ArrowCircuit.PrimeField.Basic
import ArrowCircuit.Proofs.Bytes.Layout
import ArrowCircuit.Proofs.Outcome
import Mathlib.GroupTheory.OrderOfElement

/-!
# What curves are relied on for

The arithmetic of curves is a parameter of proof systems.  This file says what is assumed of it: the
points stand for the elements of a group whose order is that of the scalar field, the affine
coordinates of a point determine it, and the pairing is bilinear and, where a statement says so, not
degenerate.  Of the byte format nothing is assumed: a point that is written and read back stands for
the same element, and points for the same element have the same bytes.
-/

namespace ArrowCircuit

/-- Points that stand for the elements of a group `G` under given operations.  Not every point need
lie in the group, and several points may stand for one element. -/
structure GroupModel (Point G : Type) [AddCommGroup G] (zero : Point) (add : Point → Point → Point)
    (neg : Point → Point) (scale : Nat → Point → Point) (isZero : Point → Bool)
    (generator : Point) where
  card_eq : Nat.card G = scalarModulus
  IsPoint : Point → Prop
  element : Point → G
  isPoint_zero : IsPoint zero
  isPoint_add : ∀ {p q}, IsPoint p → IsPoint q → IsPoint (add p q)
  isPoint_neg : ∀ {p}, IsPoint p → IsPoint (neg p)
  isPoint_scale : ∀ {p} (n : Nat), IsPoint p → IsPoint (scale n p)
  isPoint_generator : IsPoint generator
  element_zero : element zero = 0
  element_add : ∀ {p q}, IsPoint p → IsPoint q → element (add p q) = element p + element q
  element_neg : ∀ {p}, IsPoint p → element (neg p) = -element p
  element_scale : ∀ {p} (n : Nat), IsPoint p → element (scale n p) = n • element p
  isZero_iff : ∀ {p}, IsPoint p → (isZero p = true ↔ element p = 0)

/-- A curve whose points stand for the elements of `G`, with canonical affine coordinates. -/
structure CurveArithmetic.Models {F : Type} [Coordinate F] (C : CurveArithmetic F) (G : Type)
    [AddCommGroup G] extends
    GroupModel C.Point G C.zero C.add C.neg C.scale C.isZero C.generator where
  toAffine_eq_iff : ∀ {p q}, IsPoint p → IsPoint q → C.isZero p = false → C.isZero q = false →
    (C.toAffine p = C.toAffine q ↔ element p = element q)
  toAffine_ofAffine : ∀ x y, C.toAffine (C.ofAffine x y) = (x, y)
  isZero_ofAffine : ∀ x y, C.isZero (C.ofAffine x y) = false
  isPoint_ofAffine : ∀ {p}, IsPoint p → C.isZero p = false →
    IsPoint (C.ofAffine (C.toAffine p).1 (C.toAffine p).2)
  isOnCurve_of_isPoint : ∀ {p}, IsPoint p → C.isOnCurve p = true
  /-- The constant of the curve is not zero. -/
  isOnCurve_origin : C.isOnCurve (C.ofAffine Coordinate.zero Coordinate.zero) = false

/-- A group of points that stand for the elements of `G` and survive their byte format. -/
structure PointGroup.Models (g : PointGroup) (G : Type) [AddCommGroup G] extends
    GroupModel g.Point G g.zero g.add g.neg g.scale g.isZero g.generator where
  size_pos : 0 < g.size
  length_encode : ∀ p, (g.encode p).length = g.size
  decode_encode : ∀ {p}, IsPoint p →
    ∃ q, g.decode (g.encode p) = .ok q ∧ IsPoint q ∧ element q = element p

/-- The pairing respects what points stand for, and is bilinear. -/
structure PairingSuite.Bilinear (S : PairingSuite) {G₁ G₂ : Type} [AddCommGroup G₁] [AddCommGroup G₂]
    (M₁ : S.curve.Models G₁) (M₂ : S.twist.Models G₂) : Prop where
  pair_congr : ∀ {q q' p p'}, M₂.IsPoint q → M₂.IsPoint q' → M₁.IsPoint p → M₁.IsPoint p' →
    M₂.element q = M₂.element q' → M₁.element p = M₁.element p' → S.pair q p = S.pair q' p'
  pair_add_left : ∀ {q q' p}, M₂.IsPoint q → M₂.IsPoint q' → M₁.IsPoint p →
    S.pair (S.twist.add q q') p = S.mul (S.pair q p) (S.pair q' p)
  pair_add_right : ∀ {q p p'}, M₂.IsPoint q → M₁.IsPoint p → M₁.IsPoint p' →
    S.pair q (S.curve.add p p') = S.mul (S.pair q p) (S.pair q p')
  beq_iff : ∀ x y, S.beq x y = true ↔ x = y

/-- The generators do not pair to what the generator of the twist and zero pair to. -/
def PairingSuite.Nondegenerate (S : PairingSuite) : Prop :=
  S.pair S.twist.generator S.curve.generator ≠ S.pair S.twist.generator S.curve.zero

/-! ## Points in byte strings -/

/-- Points with a property survive the byte format of a group: what is written is read back as a point
that is related to the one written. -/
structure PointGroup.Survives (g : PointGroup) (IsValid : g.Point → Prop)
    (Related : g.Point → g.Point → Prop) : Prop where
  size_pos : 0 < g.size
  length_encode : ∀ p, (g.encode p).length = g.size
  decode_encode : ∀ {p}, IsValid p → ∃ q, g.decode (g.encode p) = .ok q ∧ Related p q

namespace PointGroup.Survives

variable {g : PointGroup} {IsValid : g.Point → Prop} {Related : g.Point → g.Point → Prop}
  (hg : g.Survives IsValid Related) {bs rest : Bytes} {offset : Nat}

include hg

theorem decode_at {p : g.Point} (h : bs.At offset (g.encode p ++ rest)) (hp : IsValid p) :
    ∃ q, g.decode (bs.slice offset g.size) = .ok q ∧ Related p q := by
  rw [h.slice_eq (hg.length_encode p)]
  exact hg.decode_encode hp

theorem decodeList_at {ps : List g.Point} (h : bs.At offset (g.encodeList ps ++ rest))
    (hps : ∀ p ∈ ps, IsValid p) :
    ∃ qs, g.decodeList bs offset ps.length = .ok qs ∧ List.Forall₂ Related ps qs := by
  have hexists : ∃ qs, List.Forall₂ (fun p q => g.decode (g.encode p) = .ok q ∧ Related p q) ps qs :=
    exists_forall₂ fun p hp => hg.decode_encode (hps p hp)
  obtain ⟨qs, hqs⟩ := hexists
  have hlen : qs.length = ps.length := hqs.length_eq.symm
  refine ⟨qs, mapM_range_eq_ok hlen fun i hi => ?_, hqs.imp fun _ _ h => h.2⟩
  rw [h.slice_flatMap hg.length_encode (hlen ▸ hi)]
  exact (List.forall₂_iff_get.mp hqs).2 i (hlen ▸ hi) hi |>.1

theorem length_encodeList (ps : List g.Point) : (g.encodeList ps).length = ps.length * g.size :=
  Bytes.length_flatMap hg.length_encode ps

end PointGroup.Survives

namespace PointGroup.Models

variable {g : PointGroup} {G : Type} [AddCommGroup G] (M : g.Models G)

/-- Two points of the group for the same element. -/
def Same (p q : g.Point) : Prop := M.IsPoint p ∧ M.IsPoint q ∧ M.element p = M.element q

/-- The points of the group survive, as points for the same element. -/
theorem survives : g.Survives M.IsPoint M.Same where
  size_pos := M.size_pos
  length_encode := M.length_encode
  decode_encode := by
    intro p hp
    obtain ⟨q, hq, hpoint, helement⟩ := M.decode_encode hp
    exact ⟨q, hq, hp, hpoint, helement.symm⟩

variable {M}

theorem isPoint_of_forall₂ {ps qs : List g.Point} (h : List.Forall₂ M.Same ps qs) :
    ∀ p ∈ ps, M.IsPoint p := by
  induction h with
  | nil => exact fun p hp => absurd hp List.not_mem_nil
  | cons hp _ ih => exact List.forall_mem_cons.mpr ⟨hp.1, ih⟩

end PointGroup.Models

/-! ## The byte format of a point -/

namespace Fq

theorem length_word (a : Fq) : (word a).length = wordSize := Bytes.length_bigEndian _ _

theorem val_eq_zero_iff (a : Fq) : a.val = 0 ↔ a = Coordinate.zero := by
  constructor
  · intro h
    cases a
    cases h
    rfl
  · rintro rfl
    rfl

theorem wordAt_flatMap {ws : List Fq} {i : Nat} (hi : i < ws.length) :
    wordAt (ws.flatMap word) i = .ok ws[i] := by
  have hat : Bytes.At (ws.flatMap word) 0 (ws.flatMap word ++ []) := by
    rw [List.append_nil]
    exact Bytes.at_zero _
  have hslice := hat.slice_flatMap length_word hi
  rw [Nat.zero_add] at hslice
  have hlt : ws[i].val < 256 ^ wordSize := ws[i].isLt.trans (by decide)
  rw [wordAt, hslice, word, Bytes.toNat_bigEndian_of_lt hlt, ofNat?, dif_pos ws[i].isLt]

theorem word_zero : word Coordinate.zero = Bytes.zeros wordSize := Bytes.bigEndian_zero wordSize

end Fq

namespace CurveArithmetic

variable {F : Type} [Coordinate F] [WordFormat F] {C : CurveArithmetic F}

theorem zeros_pointSize :
    Bytes.zeros (pointSize F) =
      (List.replicate (2 * WordFormat.width F) (Coordinate.zero : Fq)).flatMap Fq.word := by
  rw [List.flatMap_replicate, Fq.word_zero, pointSize, Bytes.zeros, Bytes.zeros,
    List.flatten_replicate_replicate]

theorem length_words_append (x y : F) :
    (WordFormat.words x ++ WordFormat.words y).length = 2 * WordFormat.width F := by
  rw [List.length_append, WordFormat.length_words, WordFormat.length_words, Nat.two_mul]

theorem length_encode (p : C.Point) : (C.encode p).length = pointSize F := by
  rw [encode]
  split
  · exact List.length_replicate
  · rw [Bytes.length_flatMap Fq.length_word, length_words_append, pointSize]

/-- A word list is read back as the point at infinity if it is zero, otherwise as the point of its
coordinates. -/
theorem decode_flatMap_word (name : String) {ws : List Fq} (hws : ws.length = 2 * WordFormat.width F) :
    C.decode name (ws.flatMap Fq.word) =
      if ws.all (·.val = 0) then .ok C.zero
      else
        let p := C.ofAffine (WordFormat.ofWords (ws.take (WordFormat.width F)))
          (WordFormat.ofWords (ws.drop (WordFormat.width F)))
        if C.isOnCurve p then .ok p else .error (.notOnCurve name) := by
  have hsize : (ws.flatMap Fq.word).length = pointSize F := by
    rw [Bytes.length_flatMap Fq.length_word, hws, pointSize]
  have hread : (List.range (2 * WordFormat.width F)).mapM (Fq.wordAt (ws.flatMap Fq.word)) =
      .ok ws := mapM_range_eq_ok hws fun i hi => Fq.wordAt_flatMap hi
  rw [decode, if_neg (not_not.mpr hsize)]
  simp only [hread]
  rfl

theorem words_eq_of_all_zero {x : F} (h : (WordFormat.words x).all (·.val = 0) = true) :
    x = Coordinate.zero := by
  have hzero : WordFormat.words x = List.replicate (WordFormat.width F) Coordinate.zero := by
    refine List.eq_replicate_iff.mpr ⟨WordFormat.length_words x, fun w hw => ?_⟩
    exact (Fq.val_eq_zero_iff w).mp (by simpa using List.all_eq_true.mp h w hw)
  rw [← WordFormat.ofWords_words x, hzero, WordFormat.ofWords_zero]

/-- A point that is zero is read back as the zero of the curve. -/
theorem decode_encode_of_isZero (name : String) {p : C.Point} (hzero : C.isZero p = true) :
    C.decode name (C.encode p) = .ok C.zero := by
  rw [encode, if_pos hzero, zeros_pointSize, decode_flatMap_word _ List.length_replicate,
    if_pos (by simp [Fq.val_eq_zero_iff])]

/-- Any other point is read back as the point of its coordinates, if that lies on the curve and the
origin does not. -/
theorem decode_encode_of_toAffine (name : String) {p : C.Point} {x y : F}
    (hzero : C.isZero p = false) (hxy : C.toAffine p = (x, y))
    (hcurve : C.isOnCurve (C.ofAffine x y) = true)
    (horigin : C.isOnCurve (C.ofAffine Coordinate.zero Coordinate.zero) = false) :
    C.decode name (C.encode p) = .ok (C.ofAffine x y) := by
  -- coordinates that are all zero would be those of the origin
  have hne : ¬(WordFormat.words x ++ WordFormat.words y).all (·.val = 0) = true := by
    intro hall
    rw [List.all_append, Bool.and_eq_true] at hall
    rw [words_eq_of_all_zero hall.1, words_eq_of_all_zero hall.2, horigin] at hcurve
    exact Bool.false_ne_true hcurve
  rw [encode, if_neg (by rw [hzero]; exact Bool.false_ne_true), hxy,
    decode_flatMap_word _ (length_words_append x y), if_neg hne]
  have htake : (WordFormat.words x ++ WordFormat.words y).take (WordFormat.width F) =
      WordFormat.words x := List.take_left' (WordFormat.length_words x)
  have hdrop : (WordFormat.words x ++ WordFormat.words y).drop (WordFormat.width F) =
      WordFormat.words y := List.drop_left' (WordFormat.length_words x)
  simp only [htake, hdrop, WordFormat.ofWords_words, hcurve, if_true]

variable {G : Type} [AddCommGroup G] (M : C.Models G)

theorem Models.decode_encode (name : String) {p : C.Point} (hp : M.IsPoint p) :
    ∃ q, C.decode name (C.encode p) = .ok q ∧ M.IsPoint q ∧ M.element q = M.element p := by
  cases hzero : C.isZero p with
  | true =>
      refine ⟨C.zero, decode_encode_of_isZero name hzero, M.isPoint_zero, ?_⟩
      rw [M.element_zero, (M.isZero_iff hp).mp hzero]
  | false =>
      rcases hxy : C.toAffine p with ⟨x, y⟩
      have hq := M.isPoint_ofAffine hp hzero
      rw [hxy] at hq
      refine ⟨C.ofAffine x y, decode_encode_of_toAffine name hzero hxy (M.isOnCurve_of_isPoint hq)
        M.isOnCurve_origin, hq, ?_⟩
      rw [← M.toAffine_eq_iff hq hp (M.isZero_ofAffine x y) hzero, M.toAffine_ofAffine, hxy]

/-- The bytes of a point are those of its element. -/
theorem Models.encode_eq_of_element {p q : C.Point} (hp : M.IsPoint p) (hq : M.IsPoint q)
    (h : M.element p = M.element q) : C.encode p = C.encode q := by
  have hzero : C.isZero p = C.isZero q := by
    rw [Bool.eq_iff_iff, M.isZero_iff hp, M.isZero_iff hq, h]
  cases hp₀ : C.isZero p with
  | true => rw [encode, encode, if_pos hp₀, if_pos (hzero.symm.trans hp₀)]
  | false =>
      have hq₀ : C.isZero q = false := hzero.symm.trans hp₀
      rw [encode, encode, hp₀, hq₀, (M.toAffine_eq_iff hp hq hp₀ hq₀).mpr h]

/-- The points of a curve survive the byte format. -/
def Models.pointGroup (hwidth : 0 < WordFormat.width F) (name : String) :
    (C.pointGroup name).Models G where
  toGroupModel := M.toGroupModel
  size_pos := Nat.mul_pos (Nat.mul_pos Nat.two_pos hwidth) (by decide)
  length_encode := length_encode
  decode_encode := M.decode_encode name

end CurveArithmetic

end ArrowCircuit
