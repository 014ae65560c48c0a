import ArrowCircuit.Proofs.Bytes.Layout
import ArrowCircuit.Proofs.Number.Numeral
import ArrowCircuit.Wire.PublicInput

/-!
# Public inputs survive their text

The text of a public input is `0x` and two digits for each of its bytes.  The verifier strips blanks,
sees the mark and reads the digits; none of the special cases of numerals (signs, underscores, a
second mark) can arise in it.
-/

namespace ArrowCircuit

namespace Text

theorem ofString_append (s t : String) : ofString (s ++ t) = ofString s ++ ofString t := by
  rw [ofString, String.toList_append, List.map_append, ← ofString, ← ofString]

theorem ofString_ofList (cs : List Char) : ofString (String.ofList cs) = cs.map Char.toNat := by
  rw [ofString, String.toList_ofList]

end Text

namespace Bytes

/-- The code point of a hexadecimal digit. -/
def digitCode (d : Nat) : Nat := if d < 10 then 0x30 + d else 0x57 + d

/-- The code points of the hexadecimal text of a byte string. -/
def hexCodes (bs : Bytes) : Text := bs.flatMap fun b => [digitCode (b.toNat / 16), digitCode (b.toNat % 16)]

theorem toNat_ofNat_digitCode {d : Nat} (h : d < 16) :
    (if d < 10 then Char.ofNat (0x30 + d) else Char.ofNat (0x57 + d)).toNat = digitCode d := by
  revert d
  decide

theorem ofString_hex (bs : Bytes) : Text.ofString bs.hex = hexCodes bs := by
  rw [hex, Text.ofString_ofList, hexCodes, List.map_flatMap]
  refine congrArg (fun f => bs.flatMap f) (funext fun b => ?_)
  have hhigh : b.toNat / 16 < 16 := Nat.div_lt_of_lt_mul b.toNat_lt
  have hlow : b.toNat % 16 < 16 := Nat.mod_lt _ (by decide)
  simp only [byteHex, List.map_cons, List.map_nil, toNat_ofNat_digitCode hhigh,
    toNat_ofNat_digitCode hlow]

theorem length_hexCodes (bs : Bytes) : (hexCodes bs).length = 2 * bs.length := by
  induction bs with
  | nil => rfl
  | cons b bs ih =>
      rw [hexCodes, List.flatMap_cons, ← hexCodes, List.length_append, ih, List.length_cons]
      simp only [List.length_cons, List.length_nil]
      omega

theorem hexCodes_ne_nil {bs : Bytes} (h : bs ≠ []) : hexCodes bs ≠ [] := by
  have hpos := List.length_pos_iff.mpr h
  rw [← List.length_pos_iff, length_hexCodes]
  omega

theorem length_hex (bs : Bytes) : bs.hex.length = 2 * bs.length := by
  rw [← length_hexCodes, ← ofString_hex, Text.ofString, List.length_map, String.length_toList]

end Bytes

namespace Numeral

open Bytes

theorem digitValue?_digitCode : ∀ d < 16, digitValue? 16 (digitCode d) = some d := by
  decide

/-- Each byte has two digits. -/
theorem digits_hexCodes (bs : Bytes) :
    Digits 16 (hexCodes bs) (bs.flatMap fun b => [b.toNat / 16, b.toNat % 16]) := by
  induction bs with
  | nil => exact .nil
  | cons b bs ih =>
      have hhigh := digitValue?_digitCode (b.toNat / 16) (Nat.div_lt_of_lt_mul b.toNat_lt)
      have hlow := digitValue?_digitCode (b.toNat % 16) (Nat.mod_lt _ (by decide))
      rw [hexCodes, List.flatMap_cons, List.flatMap_cons]
      exact .cons hhigh (.cons hlow ih)

theorem foldl_halves (bs : Bytes) (value : Nat) :
    (bs.flatMap fun b => [b.toNat / 16, b.toNat % 16]).foldl (fun n d => n * 16 + d) value =
      bs.foldl (fun n b => n * 256 + b.toNat) value := by
  induction bs generalizing value with
  | nil => rfl
  | cons b bs ih =>
      have hbyte : (value * 16 + b.toNat / 16) * 16 + b.toNat % 16 = value * 256 + b.toNat := by omega
      rw [List.flatMap_cons, List.foldl_append, ih, List.foldl_cons, List.foldl_cons, List.foldl_nil,
        hbyte, List.foldl_cons]

theorem read_hexCodes {bs : Bytes} (h : bs ≠ []) : read 16 (hexCodes bs) = .ok (bs.toNat : Int) := by
  rw [read_digits (by decide) (digits_hexCodes bs) (hexCodes_ne_nil h)
    (fun hten => absurd hten (by decide)), foldl_halves]
  rfl

end Numeral

namespace Wire

open Bytes

theorem strip_marked (bs : Bytes) :
    Text.strip (0x30 :: 0x78 :: hexCodes bs) = 0x30 :: 0x78 :: hexCodes bs := by
  have hplain : ∀ c ∈ 0x30 :: 0x78 :: hexCodes bs, Text.isBlank c = false := by
    refine List.forall_mem_cons.mpr ⟨by decide, List.forall_mem_cons.mpr ⟨by decide, ?_⟩⟩
    intro c hc
    exact Numeral.not_isBlank_of_digits (Numeral.digits_hexCodes bs) hc
  have hstrip := Numeral.strip_append_blank Numeral.blank_nil Numeral.blank_nil hplain
    (List.cons_ne_nil _ _)
  rwa [List.nil_append, List.append_nil] at hstrip

/-- The code points of a text of bytes. -/
theorem ofString_marked (bs : Bytes) :
    Text.ofString ("0x" ++ bs.hex) = 0x30 :: 0x78 :: hexCodes bs := by
  rw [Text.ofString_append, ofString_hex]
  rfl

/-- The byte formats read the digits behind the mark. -/
theorem hexValue_marked {bs : Bytes} (hne : bs ≠ []) (hlen : bs.length ≤ 32) :
    hexValue (0x30 :: 0x78 :: hexCodes bs) = .ok (bs.toNat : Int) := by
  have hshort : ¬(hexCodes bs).length > 64 := by
    rw [length_hexCodes]
    omega
  have hdigits : (hexCodes bs).isEmpty = false := List.isEmpty_eq_false_iff.mpr (hexCodes_ne_nil hne)
  have hbody : (if hasHexMark (0x30 :: 0x78 :: hexCodes bs) then
      (0x30 :: 0x78 :: hexCodes bs).drop 2 else 0x30 :: 0x78 :: hexCodes bs) = hexCodes bs := rfl
  simp only [hexValue, hbody, hshort, hdigits, if_false, Bool.false_eq_true,
    Numeral.read_hexCodes hne]

theorem word_natCast {n : Nat} (h : n < 2 ^ 256) : word n = .ok (bigEndian 32 n) := by
  rw [word, Nat.pow_eq, if_neg (by omega), Int.toNat_natCast]

/-- **Public inputs.** The text of a number of 32 bytes is read back as the number. -/
theorem publicValue_hexText {z : Int} (h0 : 0 ≤ z) (h : z < 2 ^ 256) :
    hexText z = .ok ("0x" ++ (bigEndian 32 z.toNat).hex) ∧
      publicValue (.str ("0x" ++ (bigEndian 32 z.toNat).hex)) = .ok z := by
  obtain ⟨n, rfl⟩ := Int.eq_ofNat_of_zero_le h0
  have hn : n < 2 ^ 256 := by omega
  rw [Int.toNat_natCast]
  have hne : bigEndian 32 n ≠ [] := List.ne_nil_of_length_eq_add_one (length_bigEndian 32 _)
  have hhex := hexValue_marked hne (length_bigEndian 32 n).le
  rw [toNat_bigEndian_of_lt (by omega)] at hhex
  refine ⟨by rw [hexText, word_natCast hn]; rfl, ?_⟩
  have hmark : hasHexMark (0x30 :: 0x78 :: hexCodes (bigEndian 32 n)) = true := rfl
  simp only [publicValue, Value.str, Value.display, ofString_marked, Except.mapError, bind,
    Except.bind, strip_marked, hmark, if_true, hhex]

end Wire

end ArrowCircuit
