import ArrowCircuit.Chain.Account
import ArrowCircuit.Proofs.Bytes.Layout

/-!
# The layout of verifying-key accounts

An account is written exactly for what fits: an authority of 32 bytes, at most 16 public inputs and a key
of the size for them (`encode_eq_ok_iff`).  Its sections then stand at fixed offsets (`Layout`), so that
the program on the chain, which reads these offsets without asking, finds the key, the authority and the
number of inputs again.  The key is written in two parts, around the length of its list of input points.
-/

namespace ArrowCircuit

/-! ## Sizes -/

theorem Sha256.length_hash (message : Bytes) : (hash message).length = 32 := by
  rw [hash, List.length_flatMap]
  simp only [Bytes.length_bigEndian, Words.toList]
  rfl

namespace Account

theorem length_mark (name : Bytes) : (mark name).length = markSize := by
  rw [mark, List.length_take, Sha256.length_hash]
  rfl

theorem checkedCount_eq_ok {n : Nat} (h : n ≤ maxInputs) : checkedCount n = .ok n := by
  rw [checkedCount, if_neg (by omega), Int.toNat_natCast]

theorem keySize_eq (n : Nat) : keySize n = (448 + 64 * (n + 1) : Nat) := by
  rw [keySize, VerifyingKey.size, show VerifyingKey.headerSize Bn254.suite = 448 from rfl,
    show Bn254.suite.g1.size = 64 from rfl]
  omega

/-- What an account is written for. -/
structure Fits (key authority : Bytes) (n : Int) : Prop where
  authority : authority.length = authoritySize
  nonneg : 0 ≤ n
  le : n ≤ maxInputs
  key : (key.length : Int) = keySize n

section Sections

variable {key authority : Bytes} {n : Nat} (h : Fits key authority n)

include h

theorem Fits.length_key : key.length = 448 + 64 * (n + 1) := by
  have hkey := h.key
  rw [keySize_eq] at hkey
  omega

/-- The sections of an account are as long together as its size says. -/
theorem Fits.length_sections : ((sections key authority n).length : Int) = size n := by
  have hkey := h.length_key
  have hheader : keyHeaderSize = 448 := rfl
  have hmark : markSize = 8 := rfl
  have hwidth : authoritySize = 32 := rfl
  simp only [sections, List.length_append, length_mark, h.authority, List.length_singleton,
    List.length_take, List.length_drop, Bytes.length_littleEndian, hheader, hmark, hwidth, size]
  omega

theorem Fits.encode_eq : encode key authority n = .ok (sections key authority n) := by
  rw [encode, if_neg (not_not.mpr h.authority), checkedCount_eq_ok (Int.ofNat_le.mp h.le)]
  simp only [bind, Except.bind, pure, Except.pure, if_neg (not_not.mpr h.key),
    if_neg (not_not.mpr h.length_sections)]

end Sections

/-! ## Success and failure -/

/-- What does not fit is refused before the account is put together. -/
theorem exists_encode_eq_error {key authority : Bytes} {n : Int} (h : ¬Fits key authority n) :
    ∃ fault, encode key authority n = .error fault ∧
      ∀ actual expected, fault ≠ .accountSize actual expected := by
  by_cases hauthority : authority.length = authoritySize
  · by_cases hcount : n < 0 ∨ n > maxInputs
    · refine ⟨.inputCount n, ?_, fun _ _ => Fault.noConfusion⟩
      rw [encode, if_neg (not_not.mpr hauthority), checkedCount, if_pos hcount]
      rfl
    · -- the key is all that is left to blame
      have hkey : (key.length : Int) ≠ keySize n := fun hkey =>
        h ⟨hauthority, by omega, by omega, hkey⟩
      refine ⟨.keySize key.length (keySize n) n, ?_, fun _ _ => Fault.noConfusion⟩
      rw [encode, if_neg (not_not.mpr hauthority), checkedCount, if_neg hcount]
      simp only [bind, Except.bind, pure, Except.pure, if_pos hkey]
      rfl
  · refine ⟨.authority authority.length, ?_, fun _ _ => Fault.noConfusion⟩
    rw [encode, if_pos hauthority]
    rfl

/-- **Success.** An account is written exactly for what fits, and is the sections one behind the other. -/
theorem encode_eq_ok_iff {key authority : Bytes} {n : Int} {account : Bytes} :
    encode key authority n = .ok account ↔
      Fits key authority n ∧ account = sections key authority n.toNat := by
  by_cases h : Fits key authority n
  · obtain ⟨m, rfl⟩ := Int.eq_ofNat_of_zero_le h.nonneg
    rw [h.encode_eq, Except.ok.injEq, Int.toNat_natCast]
    exact ⟨fun heq => ⟨h, heq.symm⟩, fun hok => hok.2.symm⟩
  · obtain ⟨fault, hfault, -⟩ := exists_encode_eq_error h
    rw [hfault]
    constructor
    · intro hok
      cases hok
    · intro hok
      exact absurd hok.1 h

/-- The size of the bytes that were put together is never wrong. -/
theorem encode_ne_accountSize (key authority : Bytes) (n : Int) (actual : Nat) (expected : Int) :
    encode key authority n ≠ .error (.accountSize actual expected) := by
  intro heq
  by_cases h : Fits key authority n
  · rw [encode_eq_ok_iff.mpr ⟨h, rfl⟩] at heq
    cases heq
  · obtain ⟨fault, hfault, hne⟩ := exists_encode_eq_error h
    rw [hfault] at heq
    exact hne actual expected (Except.error.inj heq)

/-- A key of the right size has an account, which is as long as it is said to be. -/
theorem exists_encode_eq {key authority : Bytes} {n : Nat} (hn : n ≤ maxInputs)
    (hkey : key.length = 448 + 64 * (n + 1)) (hauthority : authority.length = authoritySize) :
    ∃ account, encode key authority n = .ok account ∧ (account.length : Int) = size n := by
  have hfits : Fits key authority n :=
    ⟨hauthority, Int.natCast_nonneg n, Int.ofNat_le.mpr hn, by rw [keySize_eq, hkey]⟩
  exact ⟨_, hfits.encode_eq, hfits.length_sections⟩

/-! ## Offsets -/

/-- What stands where in an account.  A byte string is read from its highest byte on, so that the length of
the list, whose lowest byte comes first, is read in reverse. -/
structure Layout (key authority : Bytes) (n : Int) (account : Bytes) : Prop where
  length : (account.length : Int) = size n
  mark : account.slice 0 8 = mark (Bytes.ofString keyAccountName)
  authority : account.slice 8 32 = authority
  count : ∃ b, account[40]? = some b ∧ (b.toNat : Int) = n
  listLength : (Bytes.toNat (account.slice 489 4).reverse : Int) = n + 1
  key : account.slice 41 448 ++ account.drop 493 = key

/-- The sections are found at their offsets. -/
theorem Fits.layout {key authority : Bytes} {n : Nat} (h : Fits key authority n) :
    Layout key authority n (sections key authority n) := by
  have hcount : n ≤ 16 := Int.ofNat_le.mp h.le
  have hheader : keyHeaderSize = 448 := rfl
  have hkey : (key.take 448).length = 448 := by
    rw [List.length_take, h.length_key]
    omega
  -- one section after the other, each behind the one before
  have hmark : Bytes.At (sections key authority n) 0 (Account.mark (Bytes.ofString keyAccountName) ++
      (authority ++ ([UInt8.ofNat n] ++ (key.take 448 ++ (Bytes.littleEndian 4 (n + 1) ++
        key.drop 448))))) := by
    simp only [Bytes.At, sections, hheader, List.append_assoc, List.drop_zero]
  have hauthority := hmark.next (length_mark _)
  have hbyte := hauthority.next h.authority
  have hfront := hbyte.next List.length_singleton
  have hlength := hfront.next hkey
  have hrest := hlength.next (Bytes.length_littleEndian 4 (n + 1))
  refine ⟨h.length_sections, hmark.slice_eq (length_mark _), hauthority.slice_eq h.authority, ?_, ?_, ?_⟩
  · refine ⟨UInt8.ofNat n, ?_, ?_⟩
    · have hget := congrArg (·[0]?) hbyte
      rwa [List.getElem?_drop] at hget
    · rw [UInt8.toNat_ofNat']
      omega
  · have hslice := hlength.slice_eq (Bytes.length_littleEndian 4 (n + 1))
    have hvalue : (Bytes.bigEndian 4 (n + 1)).toNat = n + 1 :=
      Bytes.toNat_bigEndian_of_lt (by omega)
    rw [show (sections key authority n).slice 489 4 = Bytes.littleEndian 4 (n + 1) from hslice,
      ← Bytes.bigEndian, hvalue]
    omega
  · have hslice := hfront.slice_eq hkey
    rw [show (sections key authority n).slice 41 448 = key.take 448 from hslice,
      show (sections key authority n).drop 493 = key.drop 448 from hrest, List.take_append_drop]

/-- What is laid out in an account can be read off it. -/
theorem Layout.unique {key key' authority authority' account : Bytes} {n n' : Int}
    (h : Layout key authority n account) (h' : Layout key' authority' n' account) :
    key = key' ∧ authority = authority' ∧ n = n' := by
  obtain ⟨b, hb, hn⟩ := h.count
  obtain ⟨b', hb', hn'⟩ := h'.count
  have hsame : b = b' := Option.some.inj (hb.symm.trans hb')
  refine ⟨h.key.symm.trans h'.key, h.authority.symm.trans h'.authority, ?_⟩
  rw [← hn, ← hn', hsame]

/-- **Accounts.** For every key, authority and number of public inputs: an account is written exactly when
the authority has 32 bytes, the number is between 0 and 16 and the key has the size for it, and nothing is
refused for the size of what was put together.  An account has its size, all of its sections at their
offsets, and the key around the length of the list; no other key, authority or number has the same account. -/
theorem encode_lossless (key authority : Bytes) (n : Int) :
    ((∃ account, encode key authority n = .ok account) ↔
      authority.length = 32 ∧ 0 ≤ n ∧ n ≤ 16 ∧ (key.length : Int) = keySize n) ∧
    (∀ actual expected, encode key authority n ≠ .error (.accountSize actual expected)) ∧
    ∀ account, encode key authority n = .ok account →
      Layout key authority n account ∧
      ∀ key' authority' n', encode key' authority' n' = .ok account →
        key = key' ∧ authority = authority' ∧ n = n' := by
  have hlayout : ∀ {key authority : Bytes} {n : Int} {account : Bytes},
      encode key authority n = .ok account → Layout key authority n account := by
    intro key authority n account hok
    obtain ⟨hfits, rfl⟩ := encode_eq_ok_iff.mp hok
    obtain ⟨m, rfl⟩ := Int.eq_ofNat_of_zero_le hfits.nonneg
    exact hfits.layout
  refine ⟨⟨?_, ?_⟩, encode_ne_accountSize key authority n, ?_⟩
  · rintro ⟨account, hok⟩
    obtain ⟨hfits, -⟩ := encode_eq_ok_iff.mp hok
    exact ⟨hfits.authority, hfits.nonneg, hfits.le, hfits.key⟩
  · rintro ⟨hauthority, hnonneg, hle, hkey⟩
    exact ⟨_, encode_eq_ok_iff.mpr ⟨⟨hauthority, hnonneg, hle, hkey⟩, rfl⟩⟩
  · intro account hok
    refine ⟨hlayout hok, ?_⟩
    intro key' authority' n' hok'
    exact (hlayout hok).unique (hlayout hok')

/-- The account of a key for one input. -/
theorem encode_lossless_one_input :
    ∃ account, encode ((List.range 576).map UInt8.ofNat) (List.replicate 32 7) 1 = .ok account ∧
      Layout ((List.range 576).map UInt8.ofNat) (List.replicate 32 7) 1 account := by
  have hkey : (((List.range 576).map UInt8.ofNat).length : Int) = keySize 1 := by
    rw [List.length_map, List.length_range]
    decide
  obtain ⟨hok, -, hlayout⟩ := encode_lossless ((List.range 576).map UInt8.ofNat) (List.replicate 32 7) 1
  obtain ⟨account, haccount⟩ := hok.mpr ⟨List.length_replicate, by decide, by decide, hkey⟩
  exact ⟨account, haccount, (hlayout account haccount).1⟩

end Account

end ArrowCircuit
