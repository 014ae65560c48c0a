import ArrowCircuit.Proofs.PrimeField.Residue
import ArrowCircuit.Proofs.Wire.Readings
import ArrowCircuit.Proofs.Wire.Witness

/-!
# Texts of field elements

A field element is read from decimal digits, or from hexadecimal digits behind a mark, with a sign before
them, the mark of a big integer behind them, and blanks around the whole.  `Magnitude` says what stands
between the sign and the last mark; the reader finds it in any such text.  What is written for an element
or for an integer is one of these texts, in either case of letters.
-/

namespace ArrowCircuit

/-! ## Letters -/

namespace Numeral

/-- The two cases of a letter are one digit. -/
theorem digitValue?_lower (base c : Nat) :
    digitValue? base (if 0x41 ≤ c ∧ c ≤ 0x5a then c + 32 else c) = digitValue? base c := by
  split
  · next hc =>
      have hupper : ¬(0x61 ≤ c ∧ c ≤ 0x7a) := by omega
      have hlower : 0x61 ≤ c + 32 ∧ c + 32 ≤ 0x7a := by omega
      have hvalue : c + 32 - 0x57 = c - 0x37 := by omega
      rw [digitValue?, digitValue?, decimalValue?_letter c (by omega) hc.1,
        decimalValue?_letter (c + 32) hlower.2 (by omega), if_pos hlower, if_neg hupper, if_pos hc, hvalue]
  · rfl

theorem digits_asciiLower {base : Nat} {t : Text} {ds : List Nat} :
    Digits base (Text.asciiLower t) ds ↔ Digits base t ds := by
  rw [Digits, Digits, Text.asciiLower, List.forall₂_map_left_iff]
  simp only [digitValue?_lower]

end Numeral

namespace Text

/-- A code point that is made small was there before, or its capital letter was. -/
theorem exists_of_asciiLower_eq_cons {t rest : Text} {c : Nat} (h : asciiLower t = c :: rest) :
    ∃ b s, t = b :: s ∧ (b = c ∨ 0x61 ≤ c ∧ b + 32 = c) ∧ asciiLower s = rest := by
  obtain ⟨b, s, rfl, hb, hs⟩ := List.map_eq_cons_iff.mp h
  refine ⟨b, s, rfl, ?_, hs⟩
  split at hb <;> omega

end Text

namespace PrimeField

open Numeral

/-! ## Magnitudes -/

/-- A text of a number without a sign: decimal digits within the limit, or hexadecimal digits behind a
mark. -/
inductive Magnitude : Text → Nat → Prop
  | decimal {t : Text} {ds : List Nat} (hne : t ≠ []) (hlimit : t.length ≤ digitLimit)
    (h : Digits 10 t ds) : Magnitude t (ds.foldl (fun n d => n * 10 + d) 0)
  | marked {x : Nat} {t : Text} {ds : List Nat} (hx : x = 0x78 ∨ x = 0x58) (hne : t ≠ [])
    (h : Digits 16 t ds) : Magnitude (0x30 :: x :: t) (ds.foldl (fun n d => n * 16 + d) 0)

/-- A code point that is neither stripped nor taken for a sign or for the mark of a big integer. -/
def IsPlain (c : Nat) : Prop := Text.isBlank c = false ∧ c ≠ 0x2d ∧ c ≠ 0x6e
  deriving Decidable

theorem isPlain_of_digits {base : Nat} (hbase : base ≤ 16) {t : Text} {ds : List Nat}
    (h : Digits base t ds) : ∀ c ∈ t, IsPlain c := by
  intro c hc
  obtain ⟨d, hd⟩ := exists_digitValue?_of_digits h hc
  refine ⟨not_isBlank_of_digits h hc, ?_, ?_⟩
  · rintro rfl
    simp [digitValue?, Text.decimalValue?] at hd
  · rintro rfl
    rw [digitValue?_letter hbase (by decide)] at hd
    cases hd

namespace Magnitude

variable {s : Text} {n : Nat}

theorem ne_nil (h : Magnitude s n) : s ≠ [] := by
  cases h with
  | decimal hne => exact hne
  | marked => exact List.cons_ne_nil _ _

theorem isPlain (h : Magnitude s n) : ∀ c ∈ s, IsPlain c := by
  cases h with
  | decimal _ _ h => exact isPlain_of_digits (by decide) h
  | marked hx _ h =>
      have hzero : IsPlain 0x30 := by decide
      have hletter : ∀ x, x = 0x78 ∨ x = 0x58 → IsPlain x := by
        rintro x (rfl | rfl) <;> decide
      exact List.forall_mem_cons.mpr
        ⟨hzero, List.forall_mem_cons.mpr ⟨hletter _ hx, isPlain_of_digits (by decide) h⟩⟩

/-- A mark tells the base, and without one there are only decimal digits. -/
theorem read_eq (h : Magnitude s n) :
    (Text.asciiLower (s.take 2) = Text.ofString "0x" ∧ read 16 (s.drop 2) = .ok n) ∨
      (Text.asciiLower (s.take 2) ≠ Text.ofString "0x" ∧ s.all Text.isDigit = true ∧ read 10 s = .ok n) := by
  cases h with
  | marked hx hne h =>
      refine .inl ⟨?_, read_digits (by decide) h hne fun hten => absurd hten (by decide)⟩
      exact of_decide_eq_true (Wire.hasHexMark_iff.mpr ⟨_, _, rfl, hx⟩)
  | decimal hne hlimit h =>
      refine .inr ⟨?_, ?_, read_digits (by decide) h hne fun _ => hlimit⟩
      · -- the letter of a mark would be among the decimal digits
        intro hmark
        obtain ⟨x, body, rfl, hx⟩ := Wire.hasHexMark_iff.mp (decide_eq_true hmark)
        obtain ⟨d, hd⟩ := exists_digitValue?_of_digits h (List.mem_cons_of_mem _ List.mem_cons_self)
        rw [digitValue?_letter (by decide) (by omega)] at hd
        cases hd
      · rw [List.all_eq_true]
        intro c hc
        obtain ⟨d, hd⟩ := exists_digitValue?_of_digits h hc
        rw [Text.isDigit, (decimalValue?_of_digit hd).1]
        rfl

end Magnitude

/-! ## Signs and marks -/

/-- The sign of a negative number. -/
def sign (negative : Bool) : Text := if negative then [0x2d] else []

section Parts

variable {s : Text} (hs : ∀ c ∈ s, IsPlain c) (negative : Bool)

theorem of_mem_sign : ∀ c ∈ sign negative, Text.isBlank c = false ∧ c ≠ 0x6e := by
  cases negative <;> decide

include hs in
/-- Nothing but the blanks around a number is stripped. -/
theorem strip_number {front mark back : Text} (hfront : Blank front) (hback : Blank back)
    (hmark : mark = [] ∨ mark = Text.ofString "n") (hne : s ≠ []) :
    Text.strip (front ++ (sign negative ++ s ++ mark ++ back)) = sign negative ++ s ++ mark := by
  refine strip_append_blank hfront hback ?_ (by simp [hne])
  intro c hc
  rcases List.mem_append.mp hc with hc | hc
  · rcases List.mem_append.mp hc with hc | hc
    · exact (of_mem_sign negative c hc).1
    · exact (hs c hc).1
  · rcases hmark with rfl | rfl
    · exact absurd hc List.not_mem_nil
    · rw [List.mem_singleton.mp hc]
      decide

include hs in
/-- A number without the mark of a big integer does not end as if it had one. -/
theorem dropLast_number {mark : Text} (hmark : mark = [] ∨ mark = Text.ofString "n") :
    (if Text.endsWith (sign negative ++ s ++ mark) "n" then (sign negative ++ s ++ mark).dropLast
      else sign negative ++ s ++ mark) = sign negative ++ s := by
  rcases hmark with rfl | rfl
  · -- neither a sign nor a digit looks like the mark
    rw [List.append_nil, if_neg]
    intro hend
    have hmem : 0x6e ∈ sign negative ++ s := (List.isSuffixOf_iff_suffix.mp hend).subset (by decide)
    rcases List.mem_append.mp hmem with hc | hc
    · exact (of_mem_sign negative _ hc).2 rfl
    · exact (hs _ hc).2.2 rfl
  · have hend : Text.endsWith (sign negative ++ s ++ Text.ofString "n") "n" = true :=
      List.isSuffixOf_iff_suffix.mpr (List.suffix_append _ _)
    rw [if_pos hend]
    exact List.dropLast_concat

include hs in
theorem startsWith_number : Text.startsWith (sign negative ++ s) "-" = negative := by
  cases negative with
  | true => rfl
  | false =>
      rw [Bool.eq_false_iff]
      intro hstart
      have hmem : 0x2d ∈ sign false ++ s := (List.isPrefixOf_iff_prefix.mp hstart).subset (by decide)
      exact (hs _ hmem).2.1 rfl

end Parts

/-- **Reading.** Around a magnitude the reader finds a sign, the mark of a big integer and blanks. -/
theorem parseText_eq {front s mark back : Text} {n : Nat} (hfront : Blank front) (hback : Blank back)
    (hmark : mark = [] ∨ mark = Text.ofString "n") (negative : Bool) (h : Magnitude s n) :
    parseText (front ++ (sign negative ++ s ++ mark ++ back)) = .ok (signed negative n) := by
  have hmagnitude : (if negative then (sign negative ++ s).drop 1 else sign negative ++ s) = s := by
    cases negative <;> rfl
  simp only [parseText, strip_number h.isPlain negative hfront hback hmark h.ne_nil,
    dropLast_number h.isPlain negative hmark, startsWith_number h.isPlain, hmagnitude]
  rcases h.read_eq with ⟨hbase, hread⟩ | ⟨hbase, hdigits, hread⟩
  · rw [if_pos hbase, hread]
    rfl
  · have hempty : s.isEmpty = false := List.isEmpty_eq_false_iff.mpr h.ne_nil
    rw [if_neg hbase, hempty, hdigits, hread]
    rfl

/-! ## Written numbers -/

/-- A text of an integer: its sign and a text of its magnitude. -/
def Spells (t : Text) (z : Int) : Prop := ∃ s, t = sign (decide (z < 0)) ++ s ∧ Magnitude s z.natAbs

theorem signed_natAbs (z : Int) : signed (decide (z < 0)) z.natAbs = z := by
  rw [signed]
  split
  · next hneg =>
      have hneg := of_decide_eq_true hneg
      omega
  · next hnonneg =>
      rw [decide_eq_true_iff] at hnonneg
      omega

theorem Spells.parse_eq (f : PrimeField) {front t mark back : Text} {z : Int} (h : Spells t z)
    (hfront : Blank front) (hmark : mark = [] ∨ mark = Text.ofString "n") (hback : Blank back) :
    f.parse (.text (front ++ (t ++ mark ++ back))) = .ok (f.element z) := by
  obtain ⟨s, rfl, hs⟩ := h
  rw [parse, parseText_eq hfront hback hmark _ hs, signed_natAbs]
  rfl

theorem Spells.parse_text (f : PrimeField) {t : Text} {z : Int} (h : Spells t z) :
    f.parse (.text t) = .ok (f.element z) := by
  have hparse := h.parse_eq f blank_nil (.inl rfl) blank_nil
  rwa [List.nil_append, List.append_nil, List.append_nil] at hparse

theorem ofString_decimal (z : Int) :
    Text.ofString (Numeral.decimal z) =
      sign (decide (z < 0)) ++ (Nat.toDigits 10 z.natAbs).map Char.toNat := by
  rw [Numeral.decimal, Text.ofString_append, decimalNat, Text.ofString_ofList]
  by_cases hz : z < 0
  · rw [if_pos hz, decide_eq_true hz]
    rfl
  · rw [if_neg hz, decide_eq_false hz]
    rfl

theorem ofString_hex (z : Int) :
    Text.ofString (Numeral.hex z) =
      sign (decide (z < 0)) ++ 0x30 :: 0x78 :: (Nat.toDigits 16 z.natAbs).map Char.toNat := by
  rw [Numeral.hex, Text.ofString_append, hexNat, Text.ofString_ofList]
  by_cases hz : z < 0
  · rw [if_pos hz, decide_eq_true hz]
    rfl
  · rw [if_neg hz, decide_eq_false hz]
    rfl

/-- Decimal text within the limit is read. -/
theorem spells_decimal {z : Int} (h : z.natAbs < 10 ^ digitLimit) :
    Spells (Text.ofString (Numeral.decimal z)) z := by
  refine ⟨_, ofString_decimal z, ?_⟩
  obtain ⟨ds, hdigits, hsum⟩ := exists_digits_toDigits 10 (by decide) (by decide) z.natAbs
  have hlength : (Nat.toDigits 10 z.natAbs).length ≤ digitLimit :=
    (Nat.length_toDigits_le_iff (by decide) (by decide)).mpr h
  have hmagnitude := Magnitude.decimal (mt List.map_eq_nil_iff.mp Nat.toDigits_ne_nil)
    (by rwa [List.length_map]) hdigits
  rwa [hsum] at hmagnitude

/-- A marked text has its digits in either case, and so its mark. -/
theorem magnitude_hex {s : Text} {n : Nat}
    (h : Text.asciiLower s = 0x30 :: 0x78 :: (Nat.toDigits 16 n).map Char.toNat) : Magnitude s n := by
  obtain ⟨c, rest, rfl, hc, hrest⟩ := Text.exists_of_asciiLower_eq_cons h
  obtain ⟨x, body, rfl, hx, hbody⟩ := Text.exists_of_asciiLower_eq_cons hrest
  obtain ⟨ds, hdigits, hsum⟩ := exists_digits_toDigits 16 (by decide) (by decide) n
  -- a zero has one case only, the letter of the mark has two
  have hzero : c = 0x30 := by omega
  have hne : body ≠ [] := by
    rintro rfl
    exact Nat.toDigits_ne_nil (List.map_eq_nil_iff.mp hbody.symm)
  have hmagnitude := Magnitude.marked (x := x) (by omega) hne (digits_asciiLower.mp (hbody ▸ hdigits))
  rw [hzero]
  rwa [hsum] at hmagnitude

/-- Hexadecimal text is read however long it is. -/
theorem spells_hex {t : Text} {z : Int} (h : Text.asciiLower t = Text.ofString (Numeral.hex z)) :
    Spells t z := by
  rw [ofString_hex] at h
  by_cases hz : z < 0
  · rw [decide_eq_true hz] at h
    obtain ⟨c, s, rfl, hc, hs⟩ := Text.exists_of_asciiLower_eq_cons h
    have hminus : c = 0x2d := by omega
    exact ⟨s, by rw [decide_eq_true hz, hminus]; rfl, magnitude_hex hs⟩
  · rw [decide_eq_false hz] at h
    exact ⟨t, by rw [decide_eq_false hz]; rfl, magnitude_hex h⟩

/-- So is the text of a public input. -/
theorem spells_marked {bs : Bytes} (hne : bs ≠ []) :
    Spells (Text.ofString ("0x" ++ bs.hex)) bs.toNat := by
  refine ⟨_, Wire.ofString_marked bs, ?_⟩
  have hmagnitude := Magnitude.marked (.inl rfl) (Bytes.hexCodes_ne_nil hne) (digits_hexCodes bs)
  rwa [foldl_halves] at hmagnitude

/-! ## Elements -/

/-- An element of the scalar field is written as the 32 bytes of its value. -/
theorem toHex_element {v : Int} (h0 : 0 ≤ v) (h : v < scalarModulus) :
    (scalar.element v).toHex = "0x" ++ (Bytes.bigEndian 32 v.toNat).hex := by
  have hwide : v < 2 ^ 256 := h.trans (by decide)
  have hvalue : (scalar.element v).value = v := reduce_of_canonical scalar ⟨h0, h⟩
  have hnat : v.natAbs = v.toNat := by omega
  -- the bytes have the digits of the number with zeros in front, as the element writes them
  rw [Wire.hex_bigEndian (by omega), Element.toHex, hvalue, if_neg (by omega), hnat]
  rfl

/-- **Texts of elements.** What is written for an element and for a public input is one text of 66
characters, and all readers take it for the number that was written.  A field reads the decimal text of an
integer within the limit, and its hexadecimal text in either case of letters, as the residue of the
integer, whatever blanks stand around it and whether or not the mark of a big integer stands behind it. -/
theorem element_texts_agree :
    (∀ v : Int, 0 ≤ v → v < scalarModulus →
      (scalar.element v).value = v ∧ (scalar.element v).toHex.length = 66 ∧
        Wire.hexText v = .ok (scalar.element v).toHex ∧
        scalar.parse (.str (scalar.element v).toHex) = .ok (scalar.element v) ∧
        Wire.hexValue (Text.ofString (scalar.element v).toHex) = .ok v ∧
        Wire.publicValue (.str (scalar.element v).toHex) = .ok v) ∧
      ∀ (f : PrimeField) (z : Int) (t : Text),
        z.natAbs < 10 ^ digitLimit ∧ t = Text.ofString (Numeral.decimal z) ∨
            Text.asciiLower t = Text.ofString (Numeral.hex z) →
          ∀ front mark back : Text, Blank front → mark = [] ∨ mark = Text.ofString "n" → Blank back →
            f.parse (.text (front ++ (t ++ mark ++ back))) = .ok (f.element z) ∧
              (f.element z).value = z % f.modulus := by
  refine ⟨?_, ?_⟩
  · intro v h0 h
    have hwide : v < 2 ^ 256 := h.trans (by decide)
    have hbytes : ((Bytes.bigEndian 32 v.toNat).toNat : Int) = v := by
      rw [Bytes.toNat_bigEndian_of_lt (by omega), Int.toNat_of_nonneg h0]
    have hlength : (Bytes.bigEndian 32 v.toNat).length = 32 := Bytes.length_bigEndian 32 _
    have hne : Bytes.bigEndian 32 v.toNat ≠ [] := List.ne_nil_of_length_eq_add_one hlength
    -- both writers have the same bytes, and each reader takes the text apart in its own way
    have hspells := spells_marked hne
    have hhex := Wire.hexValue_marked hne hlength.le
    obtain ⟨hwritten, hpublic⟩ := Wire.publicValue_hexText h0 hwide
    rw [hbytes] at hspells hhex
    rw [toHex_element h0 h]
    refine ⟨reduce_of_canonical scalar ⟨h0, h⟩, ?_, hwritten, hspells.parse_text scalar, ?_, hpublic⟩
    · rw [String.length_append, Bytes.length_hex, hlength]
      rfl
    · rw [Wire.ofString_marked, hhex]
  · intro f z t ht front mark back hfront hmark hback
    refine ⟨?_, rfl⟩
    rcases ht with ⟨hz, rfl⟩ | ht
    · exact (spells_decimal hz).parse_eq f hfront hmark hback
    · exact (spells_hex ht).parse_eq f hfront hmark hback

/-- A negative number in letters of both cases, with a blank before it and the mark behind it. -/
theorem element_texts_agree_letters :
    scalar.parse (.str " -0XfFn") = .ok (scalar.element (-255)) ∧
      (scalar.element (-255)).value = -255 % scalarModulus :=
  element_texts_agree.2 scalar (-255) (Text.ofString "-0XfF") (.inr (by decide)) [0x20]
    (Text.ofString "n") [] (List.forall_mem_singleton.mpr rfl) (.inr rfl) blank_nil

end PrimeField

end ArrowCircuit
