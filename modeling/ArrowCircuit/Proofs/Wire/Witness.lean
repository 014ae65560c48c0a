import ArrowCircuit.Proofs.Outcome
import ArrowCircuit.Proofs.Wire.PublicInput

/-!
# Public witnesses

A public witness is a header `(n, 0, n)` and `n` words of 32 bytes.  Whatever has this form is read, as
texts of 64 digits, and from these texts it is written as it was.  Numbers that are supplied as integers or
as hexadecimal texts, however these are spelled, come back as the texts of their digits.
-/

namespace ArrowCircuit

/-! ## Hexadecimal digits -/

namespace Bytes

/-- The last of at least two digits. -/
theorem leftpad_toDigits (width n : Nat) :
    (Nat.toDigits 16 n).leftpad (width + 2) '0' =
      (Nat.toDigits 16 (n / 16)).leftpad (width + 1) '0' ++ [Nat.digitChar (n % 16)] := by
  by_cases h : n < 16
  · -- all digits before it are zeros
    rw [Nat.toDigits_of_lt_base h, Nat.div_eq_of_lt h, Nat.mod_eq_of_lt h, Nat.toDigits_zero]
    simp [List.leftpad, List.replicate_succ']
  · rw [Nat.toDigits_of_base_le (by decide) (Nat.not_lt.mp h)]
    simp [List.leftpad]

theorem byteHex_eq (b : UInt8) :
    byteHex b = [Nat.digitChar (b.toNat / 16), Nat.digitChar (b.toNat % 16)] := by
  have hdigit : ∀ d < 16, (if d < 10 then Char.ofNat (0x30 + d) else Char.ofNat (0x57 + d)) =
      Nat.digitChar d := by decide
  have hhigh : b.toNat / 16 < 16 := Nat.div_lt_of_lt_mul b.toNat_lt
  have hlow : b.toNat % 16 < 16 := Nat.mod_lt _ (by decide)
  simp only [byteHex, hdigit _ hhigh, hdigit _ hlow]

theorem byteHex_ofNat (n : Nat) :
    byteHex (UInt8.ofNat n) = [Nat.digitChar (n / 16 % 16), Nat.digitChar (n % 16)] := by
  have hbyte : (UInt8.ofNat n).toNat = n % 256 := rfl
  have hhigh : n % 256 / 16 = n / 16 % 16 := by omega
  have hlow : n % 256 % 16 = n % 16 := by omega
  rw [byteHex_eq, hbyte, hhigh, hlow]

/-- The bytes of a number have its digits, with zeros in front. -/
theorem flatMap_byteHex_bigEndian (width : Nat) {n : Nat} (h : n < 256 ^ (width + 1)) :
    (bigEndian (width + 1) n).flatMap byteHex =
      (Nat.toDigits 16 n).leftpad (2 * width + 2) '0' := by
  induction width generalizing n with
  | zero =>
      have hn : n / 16 < 16 := by omega
      rw [bigEndian_succ, List.flatMap_append, List.flatMap_singleton, byteHex_ofNat,
        leftpad_toDigits, Nat.toDigits_of_lt_base hn, Nat.mod_eq_of_lt hn]
      rfl
  | succ width ih =>
      have hn : n / 256 < 256 ^ (width + 1) := by
        rw [Nat.pow_succ] at h
        exact Nat.div_lt_of_lt_mul (by rwa [Nat.mul_comm] at h)
      have hdiv : n / 16 / 16 = n / 256 := Nat.div_div_eq_div_mul n 16 16
      rw [bigEndian_succ, List.flatMap_append, List.flatMap_singleton, byteHex_ofNat, ih hn,
        leftpad_toDigits (2 * (width + 1)) n, show 2 * (width + 1) + 1 = 2 * width + 1 + 2 by omega,
        leftpad_toDigits (2 * width + 1) (n / 16), hdiv, List.append_assoc]
      rfl

end Bytes

namespace Wire

open Bytes

/-- A number as `0x` and its lower-case hexadecimal digits, 64 of them with zeros in front. -/
def paddedHex (n : Nat) : String := "0x" ++ String.ofList ((Nat.toDigits 16 n).leftpad 64 '0')

theorem hex_bigEndian {n : Nat} (h : n < 2 ^ 256) : "0x" ++ (bigEndian 32 n).hex = paddedHex n := by
  rw [hex, flatMap_byteHex_bigEndian 31 (by omega), paddedHex]

/-! ## Supplied numbers -/

/-- A supplied value that is a number of 32 bytes: an integer, or a text that is read as one. -/
inductive SuppliesWord : Value → Nat → Prop
  | int {n : Nat} (h : n < 2 ^ 256) : SuppliesWord (.int n) n
  | text {t : Text} {n : Nat} (ht : hexValue t = .ok (n : Int)) (h : n < 2 ^ 256) :
    SuppliesWord (.text t) n

theorem SuppliesWord.lt {v : Value} {n : Nat} (h : SuppliesWord v n) : n < 2 ^ 256 := by
  cases h with
  | int h => exact h
  | text _ h => exact h

theorem forall_lt_of_supplies {vs : List Value} {ns : List Nat} (h : List.Forall₂ SuppliesWord vs ns) :
    ∀ n ∈ ns, n < 2 ^ 256 := by
  induction h with
  | nil => exact fun n hn => absurd hn List.not_mem_nil
  | cons hv _ ih => exact List.forall_mem_cons.mpr ⟨hv.lt, ih⟩

theorem SuppliesWord.inputValue_eq {v : Value} {n : Nat} (h : SuppliesWord v n) :
    inputValue v = .ok (n : Int) := by
  cases h with
  | int _ => rfl
  | text ht _ => exact ht

/-- Supplied numbers are written one after the other. -/
theorem inputBytes_eq {vs : List Value} {ns : List Nat} (h : List.Forall₂ SuppliesWord vs ns) :
    inputBytes vs = .ok (ns.flatMap (bigEndian 32)) := by
  have hwords : vs.mapM (fun v => inputValue v >>= word) = .ok (ns.map (bigEndian 32)) := by
    rw [mapM_eq_ok_iff, List.forall₂_map_right_iff]
    refine h.imp fun v n hv => ?_
    rw [hv.inputValue_eq]
    exact word_natCast hv.lt
  rw [inputBytes, hwords, List.flatMap_def]
  rfl

/-! ## The header -/

/-- The bytes of a public witness with a given body. -/
def witnessBytes (n : Nat) (body : Bytes) : Bytes :=
  bigEndian 4 n ++ (bigEndian 4 0 ++ (bigEndian 4 n ++ body))

theorem encodeWitness_eq {vs : List Value} {body : Bytes} (h : inputBytes vs = .ok body) :
    encodeWitness vs = .ok (witnessBytes (body.length / 32) body) := by
  rw [encodeWitness, h, witnessBytes, ← List.append_assoc, ← List.append_assoc]
  rfl

/-- The reader finds the counts and the body where they are written. -/
theorem decodeWitness_witnessBytes {n : Nat} {body : Bytes} (hn : n < 2 ^ 32)
    (hbody : body.length = 32 * n) : decodeWitness (witnessBytes n body) = .ok (inputTexts body) := by
  have hcount : (witnessBytes n body).At 0 (bigEndian 4 n ++ (bigEndian 4 0 ++
      (bigEndian 4 n ++ body))) := at_zero _
  have hsecret := hcount.next (length_bigEndian 4 n)
  have hlength := hsecret.next (length_bigEndian 4 0)
  have hrest := hlength.next (length_bigEndian 4 n)
  have hlen : (witnessBytes n body).length = 12 + body.length := by
    simp only [witnessBytes, List.length_append, length_bigEndian]
    omega
  have hread : toNat (bigEndian 4 n) = n := toNat_bigEndian_of_lt (by omega)
  have hzero : toNat (bigEndian 4 0) = 0 := toNat_bigEndian_of_lt (by decide)
  simp only [decodeWitness, hlen, hcount.slice_eq (length_bigEndian 4 n),
    hsecret.slice_eq (length_bigEndian 4 0), hlength.slice_eq (length_bigEndian 4 n), hread, hzero]
  have hdrop : (witnessBytes n body).drop 12 = body := hrest
  rw [if_neg (by omega), if_neg (by simp), hdrop, if_neg (by omega)]

/-- What is read has a header that says what follows it. -/
theorem exists_witnessBytes_of_decodeWitness {bs : Bytes} {ts : List String}
    (h : decodeWitness bs = .ok ts) :
    ∃ n body, n < 2 ^ 32 ∧ bs = witnessBytes n body ∧ body.length = 32 * n ∧
      ts = inputTexts body := by
  simp only [decodeWitness] at h
  split at h
  · cases h
  · next hlen =>
      split at h
      · cases h
      · next hheader =>
          obtain ⟨hsecret, hlength⟩ := not_or.mp hheader
          split at h
          · cases h
          · next hbody =>
              cases h
              refine ⟨(bs.slice 0 4).toNat, bs.drop 12, bs.toNat_slice_lt 0 4, ?_, by omega, rfl⟩
              have hcount : bigEndian 4 (bs.slice 0 4).toNat = bs.take 4 := bigEndian_slice (by omega)
              have hsecret : bigEndian 4 0 = bs.slice 4 4 := by
                rw [← not_not.mp hsecret]
                exact bigEndian_slice (by omega)
              have hlength : bigEndian 4 (bs.slice 0 4).toNat = bs.slice 8 4 := by
                rw [← not_not.mp hlength]
                exact bigEndian_slice (by omega)
              calc bs = bs.take 4 ++ (bs.slice 4 4 ++ (bs.slice 8 4 ++ bs.drop 12)) := by
                    rw [bs.take_append_slice (b := 8) rfl, bs.take_append_slice (b := 12) rfl,
                      List.take_append_drop]
                _ = witnessBytes (bs.slice 0 4).toNat (bs.drop 12) := by
                    rw [witnessBytes, hsecret, ← hlength, ← hcount]

/-! ## Words -/

theorem inputTexts_flatMap {ns : List Nat} (h : ∀ n ∈ ns, n < 2 ^ 256) :
    inputTexts (ns.flatMap (bigEndian 32)) = ns.map paddedHex := by
  have hat : At (ns.flatMap (bigEndian 32)) 0 (ns.flatMap (bigEndian 32) ++ []) := by
    rw [List.append_nil]
    exact at_zero _
  have hcount : (ns.flatMap (bigEndian 32)).length / 32 = ns.length := by
    rw [length_flatMap (length_bigEndian 32), Nat.mul_div_cancel _ (by decide)]
  have hlen : (inputTexts (ns.flatMap (bigEndian 32))).length = (ns.map paddedHex).length := by
    rw [inputTexts, List.length_map, List.length_map, List.length_range, hcount]
  refine List.ext_getElem hlen fun i hi hi' => ?_
  rw [List.length_map] at hi'
  have hslice := hat.slice_flatMap (length_bigEndian 32) hi'
  rw [Nat.zero_add] at hslice
  simp only [inputTexts, List.getElem_map, List.getElem_range, hslice]
  exact hex_bigEndian (h _ (List.getElem_mem hi'))

theorem inputValue_str (s : String) : inputValue (.str s) = hexValue (Text.ofString s) := rfl

/-- The text of a word is read as the word. -/
theorem word_of_text {w : Bytes} (h : w.length = 32) :
    inputValue (.str ("0x" ++ w.hex)) >>= word = .ok w := by
  have hvalue : inputValue (.str ("0x" ++ w.hex)) = .ok (w.toNat : Int) := by
    rw [inputValue_str, ofString_marked]
    exact hexValue_marked (List.ne_nil_of_length_eq_add_one h) h.le
  have hlt := toNat_lt w
  rw [h] at hlt
  have hwritten := bigEndian_toNat w
  rw [h] at hwritten
  rw [hvalue]
  exact (word_natCast (by omega)).trans (congrArg Except.ok hwritten)

/-- The texts of words are read as the words. -/
theorem inputBytes_inputTexts {body : Bytes} {n : Nat} (h : body.length = 32 * n) :
    inputBytes ((inputTexts body).map .str) = .ok body := by
  have hcount : body.length / 32 = n := by omega
  have hwords : ((inputTexts body).map .str).mapM (fun v => inputValue v >>= word) =
      .ok ((List.range n).map fun i => body.slice (i * 32) 32) := by
    rw [mapM_eq_ok_iff, inputTexts, hcount, List.map_map, List.forall₂_map_left_iff,
      List.forall₂_map_right_iff]
    refine List.forall₂_same.mpr fun i hi => word_of_text (length_slice ?_)
    have hi := List.mem_range.mp hi
    omega
  have hjoin := body.flatMap_slice 0 32 n
  simp only [Nat.zero_add] at hjoin
  have hflatten : ((List.range n).map fun i => body.slice (i * 32) 32).flatten = body := by
    rw [← List.flatMap_def, hjoin, Nat.mul_comm, ← h, slice_zero_length]
  rw [inputBytes, hwords]
  exact congrArg Except.ok hflatten

/-! ## Both directions -/

/-- **Public witnesses.** Numbers of 32 bytes, fewer than `2 ^ 32` of them, are written and come back as
the texts of their digits, in order.  Whatever is read is written as it was from the texts.  And what is
read is exactly what consists of a header `(n, 0, n)` and `n` words. -/
theorem publicWitness_bijection :
    (∀ {vs : List Value} {ns : List Nat}, List.Forall₂ SuppliesWord vs ns → vs.length < 2 ^ 32 →
      ∃ bs, encodeWitness vs = .ok bs ∧ decodeWitness bs = .ok (ns.map paddedHex)) ∧
    (∀ {bs : Bytes} {ts : List String}, decodeWitness bs = .ok ts →
      encodeWitness (ts.map .str) = .ok bs) ∧
    ∀ bs : Bytes, (∃ ts, decodeWitness bs = .ok ts) ↔ ∃ n body, n < 2 ^ 32 ∧
      bs = bigEndian 4 n ++ (bigEndian 4 0 ++ (bigEndian 4 n ++ body)) ∧ body.length = 32 * n := by
  refine ⟨fun {vs ns} h hlen => ?_, fun {bs ts} h => ?_, fun bs => ⟨?_, ?_⟩⟩
  · have hbody : (ns.flatMap (bigEndian 32)).length = 32 * ns.length := by
      rw [length_flatMap (length_bigEndian 32), Nat.mul_comm]
    have hcount : (ns.flatMap (bigEndian 32)).length / 32 = ns.length := by omega
    refine ⟨_, encodeWitness_eq (inputBytes_eq h), ?_⟩
    rw [hcount, decodeWitness_witnessBytes (h.length_eq ▸ hlen) hbody, inputTexts_flatMap]
    exact forall_lt_of_supplies h
  · obtain ⟨n, body, hn, rfl, hbody, rfl⟩ := exists_witnessBytes_of_decodeWitness h
    have hcount : body.length / 32 = n := by omega
    rw [encodeWitness_eq (inputBytes_inputTexts hbody), hcount]
  · rintro ⟨ts, h⟩
    obtain ⟨n, body, hn, hbs, hbody, -⟩ := exists_witnessBytes_of_decodeWitness h
    exact ⟨n, body, hn, hbs, hbody⟩
  · rintro ⟨n, body, hn, rfl, hbody⟩
    exact ⟨_, decodeWitness_witnessBytes hn hbody⟩

/-- An integer, a text with capital letters, and one with a blank, an underscore and no mark. -/
theorem publicWitness_bijection_spellings :
    ∃ bs, encodeWitness [.int 255, .text (Text.ofString "0XFF"), .text (Text.ofString " f_f")] =
        .ok bs ∧
      decodeWitness bs = .ok [paddedHex 255, paddedHex 255, paddedHex 255] ∧
      encodeWitness ([paddedHex 255, paddedHex 255, paddedHex 255].map .str) = .ok bs := by
  obtain ⟨hencode, hdecode, -⟩ := publicWitness_bijection
  have hmarked : hexValue (Text.ofString "0XFF") = .ok ((255 : Nat) : Int) := by decide +kernel
  have hplain : hexValue (Text.ofString " f_f") = .ok ((255 : Nat) : Int) := by decide +kernel
  obtain ⟨bs, hbs, hts⟩ := hencode
    (.cons (.int (n := 255) (by decide)) (.cons (.text hmarked (by decide)) (.cons (.text hplain (by decide)) .nil)))
    (by decide)
  exact ⟨bs, hbs, hts, hdecode hts⟩

end Wire

end ArrowCircuit
