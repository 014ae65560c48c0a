import ArrowCircuit.Chain.Format
import ArrowCircuit.Proofs.Bytes.Layout
import ArrowCircuit.Proofs.Number.Numeral
import ArrowCircuit.Proofs.Outcome

/-!
# Two readings of a public input

The verifier strips a text and reads it as decimal unless it begins with `0x`; the byte formats take
it as it stands and always read hexadecimal.  Behind the mark both readings are the same number.
Without it they have the same digits in two bases, so that they part from ten on.
-/

namespace ArrowCircuit

namespace Wire

open Numeral

/-! ## The mark -/

/-- A marked text is a zero, one of the two letters, and its body. -/
theorem hasHexMark_iff {t : Text} :
    hasHexMark t = true ↔ ∃ x body, t = 0x30 :: x :: body ∧ (x = 0x78 ∨ x = 0x58) := by
  rw [hasHexMark, decide_eq_true_iff]
  constructor
  · intro h
    have hlen : (t.take 2).length = 2 := by
      rw [← List.length_map, ← Text.asciiLower, h]
      rfl
    cases t with
    | nil => cases hlen
    | cons c t => cases t with
    | nil => cases hlen
    | cons x body =>
        have h : [if 0x41 ≤ c ∧ c ≤ 0x5a then c + 32 else c,
            if 0x41 ≤ x ∧ x ≤ 0x5a then x + 32 else x] = [0x30, 0x78] := h
        obtain ⟨hc, hx⟩ := List.cons.inj h
        have hx := List.head_eq_of_cons_eq hx
        -- letters become letters, so that only a zero becomes a zero
        have hc : c = 0x30 := by
          split at hc <;> omega
        refine ⟨x, body, by rw [hc], ?_⟩
        split at hx <;> omega
  · rintro ⟨x, body, rfl, rfl | rfl⟩ <;> rfl

/-- No code point of a mark is blank. -/
theorem not_isBlank_mark {x : Nat} (hx : x = 0x78 ∨ x = 0x58) :
    Text.isBlank 0x30 = false ∧ Text.isBlank x = false := by
  rcases hx with rfl | rfl <;> decide

/-- A text with a mark keeps it when it is stripped. -/
theorem hasHexMark_strip {t : Text} (h : hasHexMark t = true) : hasHexMark (Text.strip t) = true := by
  obtain ⟨x, body, rfl, hx⟩ := hasHexMark_iff.mp h
  obtain ⟨hzero, hletter⟩ := not_isBlank_mark hx
  obtain ⟨front, back, ht, hfront, hback⟩ := exists_blanks_strip (0x30 :: x :: body)
  -- neither of the first two code points can be among the blanks before or behind
  cases front with
  | cons c front =>
      have hc : 0x30 = c := List.head_eq_of_cons_eq ht
      rw [hc, hfront c List.mem_cons_self] at hzero
      cases hzero
  | nil =>
      rw [List.nil_append] at ht
      cases hs : Text.strip (0x30 :: x :: body) with
      | nil =>
          rw [hs, List.nil_append] at ht
          rw [hback 0x30 (ht ▸ List.mem_cons_self)] at hzero
          cases hzero
      | cons c s =>
          rw [hs, List.cons_append] at ht
          have hc : 0x30 = c := List.head_eq_of_cons_eq ht
          have htail := List.tail_eq_of_cons_eq ht
          cases s with
          | nil =>
              rw [List.nil_append] at htail
              rw [hback x (htail ▸ List.mem_cons_self)] at hletter
              cases hletter
          | cons y s =>
              have hy : x = y := List.head_eq_of_cons_eq htail
              exact hasHexMark_iff.mpr ⟨x, s, by rw [← hc, ← hy], hx⟩

/-! ## The byte formats -/

/-- What a text has behind its mark. -/
def hexBody (t : Text) : Text := if hasHexMark t then t.drop 2 else t

/-- The body of a text is read in base 16, and nothing is read as zero. -/
theorem read_of_hexValue {t : Text} {y : Int} (h : hexValue t = .ok y) :
    Numeral.read 16 (if (hexBody t).isEmpty then Text.ofString "0" else hexBody t) = .ok y := by
  have hbody : hexBody t = if hasHexMark t then t.drop 2 else t := rfl
  simp only [hexValue, ← hbody] at h
  split at h
  · cases h
  · cases hread : Numeral.read 16 (if (hexBody t).isEmpty then Text.ofString "0" else hexBody t) with
    | error e =>
        rw [hread] at h
        cases h
    | ok z =>
        rw [hread] at h
        cases h
        rfl

theorem read_of_hexValue_of_ne_nil {t : Text} {y : Int} (h : hexValue t = .ok y)
    (hne : hexBody t ≠ []) : Numeral.read 16 (hexBody t) = .ok y := by
  have hread := read_of_hexValue h
  rwa [if_neg (by rwa [List.isEmpty_iff])] at hread

/-- The bytes of a number denote it. -/
theorem toNat_of_word {y : Int} {bs : Bytes} (h : word y = .ok bs) : (bs.toNat : Int) = y := by
  rw [word, Nat.pow_eq] at h
  split at h
  · cases h
  · next hfits =>
      cases h
      rw [Bytes.toNat_bigEndian_of_lt (by omega)]
      omega

/-! ## Marked texts -/

/-- Behind a mark stands a digit: neither a second mark nor a sign nor an underscore is read there. -/
theorem read_body_of_read_marked {x : Nat} {body : Text} {y z : Int} (hx : x = 0x78 ∨ x = 0x58)
    (hy : Numeral.read 16 (0x30 :: x :: body) = .ok y)
    (hz : Numeral.read 16 (if body.isEmpty then Text.ofString "0" else body) = .ok z) : y = z := by
  obtain ⟨run, hscan, hcount, hrest, rfl⟩ := read_eq_ok_iff.mp hy
  have hdrop : (0x30 :: x :: body).dropWhile Text.isNumeralBlank = 0x30 :: x :: body :=
    List.dropWhile_cons_of_neg (by decide)
  have hsign : splitSign (0x30 :: x :: body) = (false, 0x30 :: x :: body) := rfl
  have hmark : unsigned 16 (0x30 :: x :: body) = dropUnderscore body := by
    rw [unsigned, hdrop, hsign]
    dsimp only
    rw [if_pos rfl, dropHexMark_cons_cons, if_pos ⟨by decide, hx⟩]
  rw [hmark] at hscan
  cases body with
  | nil => cases hscan
  | cons c rest =>
      rw [List.isEmpty_cons, if_neg Bool.false_ne_true] at hz
      by_cases hc : c = 0x5f
      · -- the underscore would have to be a digit
        subst hc
        obtain ⟨run', hscan', -⟩ := read_eq_ok_iff.mp hz
        have hplain : unsigned 16 (0x5f :: rest) = 0x5f :: rest := by
          rw [unsigned, List.dropWhile_cons_of_neg (by decide)]
          cases rest with
          | nil => rfl
          | cons d rest =>
              rw [if_pos rfl]
              exact (dropHexMark_cons_cons 0x5f d rest).trans (if_neg fun h => absurd h.1 (by decide))
        rw [hplain] at hscan'
        cases hscan'
      · rw [dropUnderscore, if_neg hc] at hscan
        obtain ⟨hunsigned, hpositive⟩ := unsigned_of_scan (by decide) hscan hrest
        have hbody := read_eq_ok_iff.mpr
          ⟨run, hunsigned.symm ▸ hscan, hcount, hrest, rfl⟩
        rw [hbody, hpositive] at hz
        rw [isNegative, hdrop, hsign]
        exact Except.ok.inj hz

/-- **Marked texts.** Where a stripped text has its mark, it is read as the text is. -/
theorem hexValue_strip {t : Text} {y z : Int} (hmark : hasHexMark (Text.strip t) = true)
    (hy : hexValue t = .ok y) (hz : hexValue (Text.strip t) = .ok z) : y = z := by
  obtain ⟨x, body, hstrip, hx⟩ := hasHexMark_iff.mp hmark
  have hbody : hexBody (Text.strip t) = body := by
    rw [hexBody, if_pos hmark, hstrip]
    rfl
  have hz := read_of_hexValue hz
  rw [hbody] at hz
  obtain ⟨front, back, ht, hfront, hback⟩ := exists_blanks_strip t
  rw [hstrip] at ht
  cases front with
  | nil =>
      -- the text has its mark too, and a body that may end in blanks
      have hbody' : hexBody t = body ++ back := by
        have hmark' : hasHexMark t = true := hasHexMark_iff.mpr ⟨x, body ++ back, ht, hx⟩
        rw [hexBody, if_pos hmark', ht]
        rfl
      by_cases hempty : body ++ back = []
      · have hy := read_of_hexValue hy
        obtain ⟨rfl, rfl⟩ := List.append_eq_nil_iff.mp hempty
        rw [hbody'] at hy
        exact Except.ok.inj (hy.symm.trans hz)
      · have hy := read_of_hexValue_of_ne_nil hy (hbody' ▸ hempty)
        rw [hbody'] at hy
        have hy := read_of_append_blank hback hy
        -- blanks alone are not read
        have hne : body ≠ [] := by
          rintro rfl
          cases hy
        rw [if_neg (by rwa [List.isEmpty_iff])] at hz
        exact Except.ok.inj (hy.symm.trans hz)
  | cons c front =>
      -- the blanks hide the mark from the byte formats, and the reading in base 16 finds it
      have hplain : hasHexMark t = false := by
        rw [← Bool.not_eq_true]
        intro h
        obtain ⟨x', body', ht', hx'⟩ := hasHexMark_iff.mp h
        rw [ht'] at ht
        have hc : 0x30 = c := List.head_eq_of_cons_eq ht
        rw [← hc] at hfront
        have hblank := hfront 0x30 List.mem_cons_self
        rw [(not_isBlank_mark hx').1] at hblank
        cases hblank
      have hbody' : hexBody t = t := by
        rw [hexBody, hplain]
        rfl
      have hne : t ≠ [] := by
        rw [ht]
        exact List.cons_ne_nil c _
      have hy := read_of_hexValue_of_ne_nil hy (hbody'.symm ▸ hne)
      rw [hbody'] at hy
      have hy := read_strip hy
      rw [hstrip] at hy
      exact read_body_of_read_marked hx hy hz

/-! ## Texts without a mark -/

/-- **Texts without a mark.** A text that both readers take, the one as decimal and the other as
hexadecimal, is for the byte formats the number with the same digits in base 16. -/
theorem hexValue_of_read_ten {t : Text} {y z : Int} (hmark : hasHexMark (Text.strip t) = false)
    (hy : hexValue t = .ok y) (hnonneg : 0 ≤ y) (hz : Numeral.read 10 (Text.strip t) = .ok z) :
    0 ≤ z ∧ y.toNat = Nat.ofDigits 16 (Nat.digits 10 z.toNat) ∧ (y = z ↔ z < 10) := by
  have hplain : hasHexMark t = false := by
    rw [← Bool.not_eq_true]
    intro h
    rw [hasHexMark_strip h] at hmark
    cases hmark
  have hbody : hexBody t = t := by
    rw [hexBody, hplain]
    rfl
  have hne : t ≠ [] := by
    rintro rfl
    cases hz
  have hy := read_of_hexValue_of_ne_nil hy (hbody.symm ▸ hne)
  rw [hbody] at hy
  obtain ⟨ds, hds, hten, hsixteen⟩ := read_both hz (read_strip hy)
  have hdigits := ofDigits_digits_ten hds
  have hsmall := ofDigits_eq_iff_lt_ten hds
  have hle : Nat.ofDigits 10 ds ≤ Nat.ofDigits 16 ds := Nat.ofDigits_monotone ds (by decide)
  -- a minus sign can only stand before zero
  have hz : z = (Nat.ofDigits 10 ds : Nat) := by
    rw [signed] at hten hsixteen
    split at hten
    · next hneg =>
        rw [if_pos hneg] at hsixteen
        omega
    · exact hten
  have hy : y = (Nat.ofDigits 16 ds : Nat) := by
    rw [signed] at hsixteen
    split at hsixteen
    · omega
    · exact hsixteen
  subst hz hy
  refine ⟨Int.natCast_nonneg _, ?_, ?_⟩
  · rw [Int.toNat_natCast, Int.toNat_natCast, hdigits]
  · omega

/-! ## Both readers -/

/-- The bytes of a text are those of its reading in base 16. -/
theorem exists_hexValue_of_inputWord {t : Text} {bs : Bytes}
    (h : ChainProof.inputWord (.text t) = .ok bs) :
    ∃ y, hexValue t = .ok y ∧ word y = .ok bs :=
  bind_eq_ok (mapError_eq_ok h)

/-- **Two readings.** For a text that the verifier and the byte formats both take, the bytes denote the
verifier's number if the text has its mark, and the number with the same digits in base 16 if it has
none.  The two agree exactly on the texts with a mark and on the numbers below ten. -/
theorem toNat_inputWord_eq_publicValue_iff (t : Text) {z : Int} {bs : Bytes}
    (hz : publicValue (.text t) = .ok z) (hbs : ChainProof.inputWord (.text t) = .ok bs) :
    inputBytes [.text t] = .ok bs ∧ 0 ≤ z ∧
      (hasHexMark (Text.strip t) = true → (bs.toNat : Int) = z) ∧
      (hasHexMark (Text.strip t) = false →
        bs.toNat = Nat.ofDigits 16 (Nat.digits 10 z.toNat)) ∧
      ((bs.toNat : Int) = z ↔ hasHexMark (Text.strip t) = true ∨ z < 10) := by
  obtain ⟨y, hy, hword⟩ := exists_hexValue_of_inputWord hbs
  have hvalue : (bs.toNat : Int) = y := toNat_of_word hword
  have hbytes : inputBytes [.text t] = .ok bs := by
    have hinput : inputValue (.text t) = .ok y := hy
    rw [inputBytes, List.mapM_cons, List.mapM_nil, hinput]
    simp only [bind, Except.bind, hword, pure, Except.pure, List.flatten_cons, List.flatten_nil,
      List.append_nil]
  have hz : (if hasHexMark (Text.strip t) then hexValue (Text.strip t)
      else (Numeral.read 10 (Text.strip t)).mapError .numeral) = .ok z := hz
  refine ⟨hbytes, ?_⟩
  cases hmark : hasHexMark (Text.strip t) with
  | true =>
      rw [if_pos hmark] at hz
      have hsame : y = z := hexValue_strip hmark hy hz
      have hagree : (bs.toNat : Int) = z := hvalue.trans hsame
      refine ⟨by omega, fun _ => hagree, fun h => absurd h (by decide), ?_⟩
      exact ⟨fun _ => .inl rfl, fun _ => hagree⟩
  | false =>
      rw [hmark, if_neg Bool.false_ne_true] at hz
      obtain ⟨hnonneg, hdigits, hsmall⟩ :=
        hexValue_of_read_ten hmark hy (by omega) (mapError_eq_ok hz)
      refine ⟨hnonneg, fun h => absurd h Bool.false_ne_true, fun _ => by omega, ?_⟩
      rw [hvalue, hsmall]
      exact ⟨.inr, fun h => h.resolve_left Bool.false_ne_true⟩

/-- The text of two digits that the verifier reads as ten is sixteen in the byte formats. -/
theorem toNat_inputWord_ten :
    publicValue (.text (Text.ofString "10")) = .ok 10 ∧
      ChainProof.inputWord (.text (Text.ofString "10")) = .ok (Bytes.bigEndian 32 16) ∧
      ((Bytes.bigEndian 32 16).toNat : Int) ≠ 10 ∧
      inputBytes [.text (Text.ofString "10")] = .ok (Bytes.bigEndian 32 16) := by
  have hz : publicValue (.text (Text.ofString "10")) = .ok 10 := by decide +kernel
  have hbs : ChainProof.inputWord (.text (Text.ofString "10")) = .ok (Bytes.bigEndian 32 16) := by
    decide +kernel
  obtain ⟨hbytes, -, -, -, hiff⟩ := toNat_inputWord_eq_publicValue_iff _ hz hbs
  refine ⟨hz, hbs, fun h => ?_, hbytes⟩
  rcases hiff.mp h with h | h
  · exact absurd h (by decide +kernel)
  · omega

end Wire

end ArrowCircuit
