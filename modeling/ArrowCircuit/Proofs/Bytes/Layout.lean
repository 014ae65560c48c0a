import ArrowCircuit.Bytes.Basic
import Mathlib.Data.List.Induction
import Mathlib.Tactic.Ring

/-!
# Byte layouts

Numbers of a fixed width survive their byte form, and the sections of a byte string are read back one
after the other.  A reader that computes its offsets is followed with `At`: what stands behind an
offset is a section and the rest, and the rest stands behind the next offset.
-/

namespace ArrowCircuit.Bytes

/-! ## Numbers -/

theorem length_littleEndian (width n : Nat) : (littleEndian width n).length = width := by
  induction width generalizing n with
  | zero => rfl
  | succ width ih => rw [littleEndian, List.length_cons, ih]

@[simp] theorem length_bigEndian (width n : Nat) : (bigEndian width n).length = width := by
  rw [bigEndian, List.length_reverse, length_littleEndian]

theorem toNat_append_singleton (bs : Bytes) (b : UInt8) :
    toNat (bs ++ [b]) = toNat bs * 256 + b.toNat := by
  rw [toNat, List.foldl_append]
  rfl

theorem bigEndian_succ (width n : Nat) :
    bigEndian (width + 1) n = bigEndian width (n / 256) ++ [UInt8.ofNat n] := by
  rw [bigEndian, littleEndian, List.reverse_cons, ← bigEndian]

theorem toNat_bigEndian (width n : Nat) : toNat (bigEndian width n) = n % 256 ^ width := by
  induction width generalizing n with
  | zero => rw [Nat.pow_zero, Nat.mod_one]; rfl
  | succ width ih =>
      have hbyte : (UInt8.ofNat n).toNat = n % 256 := rfl
      rw [bigEndian_succ, toNat_append_singleton, ih, hbyte, Nat.pow_succ, Nat.mul_comm (256 ^ width),
        Nat.mod_mul]
      ring

theorem toNat_bigEndian_of_lt {width n : Nat} (h : n < 256 ^ width) :
    toNat (bigEndian width n) = n := by
  rw [toNat_bigEndian, Nat.mod_eq_of_lt h]

/-- A byte string is what its number is written as in its own width. -/
theorem bigEndian_toNat (bs : Bytes) : bigEndian bs.length (toNat bs) = bs := by
  induction bs using List.reverseRecOn with
  | nil => rfl
  | append_singleton bs b ih =>
      have hlt : b.toNat < 256 := b.toNat_lt
      have hrest : (toNat bs * 256 + b.toNat) / 256 = toNat bs := by omega
      have hbyte : UInt8.ofNat (toNat bs * 256 + b.toNat) = b := by
        apply UInt8.toNat_inj.mp
        rw [UInt8.toNat_ofNat']
        omega
      rw [List.length_append, List.length_singleton, bigEndian_succ, toNat_append_singleton, hrest, ih,
        hbyte]

theorem toNat_lt (bs : Bytes) : toNat bs < 256 ^ bs.length := by
  induction bs using List.reverseRecOn with
  | nil => decide
  | append_singleton bs b ih =>
      have hlt : b.toNat < 256 := b.toNat_lt
      rw [toNat_append_singleton, List.length_append, List.length_singleton, Nat.pow_succ]
      omega

theorem bigEndian_zero (width : Nat) : bigEndian width 0 = zeros width := by
  have hlow : ∀ width, littleEndian width 0 = zeros width := by
    intro width
    induction width with
    | zero => rfl
    | succ width ih =>
        rw [littleEndian, Nat.zero_div, ih]
        rfl
  rw [bigEndian, hlow, zeros, List.reverse_replicate]

/-! ## Sections -/

/-- Two sections one behind the other are a section. -/
theorem slice_append_slice (bs : Bytes) (start m n : Nat) :
    bs.slice start m ++ bs.slice (start + m) n = bs.slice start (m + n) := by
  rw [slice, slice, slice, List.take_add, List.drop_drop]

/-- So is a run of sections of one size. -/
theorem flatMap_slice (bs : Bytes) (start size count : Nat) :
    (List.range count).flatMap (fun i => bs.slice (start + i * size) size) =
      bs.slice start (count * size) := by
  induction count with
  | zero =>
      rw [Nat.zero_mul, slice, List.take_zero]
      rfl
  | succ count ih =>
      rw [List.range_succ, List.flatMap_append, ih, List.flatMap_singleton, slice_append_slice,
        Nat.succ_mul]

/-- What stands before a section and the section are what stands before the next one. -/
theorem take_append_slice (bs : Bytes) {a n b : Nat} (h : a + n = b) (rest : Bytes) :
    bs.take a ++ (bs.slice a n ++ rest) = bs.take b ++ rest := by
  rw [← h, List.take_add, List.append_assoc, slice]

theorem slice_zero_length (bs : Bytes) : bs.slice 0 bs.length = bs := by
  rw [slice, List.drop_zero, List.take_length]

theorem length_slice {bs : Bytes} {start n : Nat} (h : start + n ≤ bs.length) :
    (bs.slice start n).length = n := by
  rw [slice, List.length_take, List.length_drop]
  omega

/-- A section is what its number is written as. -/
theorem bigEndian_slice {bs : Bytes} {start n : Nat} (h : start + n ≤ bs.length) :
    bigEndian n (bs.slice start n).toNat = bs.slice start n := by
  have hwritten := bigEndian_toNat (bs.slice start n)
  rwa [length_slice h] at hwritten

theorem toNat_slice_lt (bs : Bytes) (start n : Nat) : (bs.slice start n).toNat < 256 ^ n :=
  (toNat_lt _).trans_le (Nat.pow_le_pow_right (by decide) (List.length_take_le _ _))

/-- The bytes behind an offset. -/
def At (bs : Bytes) (offset : Nat) (rest : Bytes) : Prop := bs.drop offset = rest

theorem at_zero (bs : Bytes) : At bs 0 bs := List.drop_zero

namespace At

variable {bs front rest : Bytes} {offset n : Nat}

theorem slice_eq (h : At bs offset (front ++ rest)) (hn : front.length = n) :
    bs.slice offset n = front := by
  rw [slice, h, List.take_left' hn]

theorem next (h : At bs offset (front ++ rest)) (hn : front.length = n) :
    At bs (offset + n) rest := by
  rw [At, ← List.drop_drop, h, List.drop_left' hn]

variable {α : Type} {f : α → Bytes} {size : Nat}

/-- The places of a run of sections of one size. -/
theorem slice_flatMap (hsize : ∀ x, (f x).length = size) {xs : List α}
    (h : At bs offset (xs.flatMap f ++ rest)) {i : Nat} (hi : i < xs.length) :
    bs.slice (offset + i * size) size = f xs[i] := by
  induction xs generalizing offset i with
  | nil => exact absurd hi (Nat.not_lt_zero i)
  | cons x xs ih =>
      rw [List.flatMap_cons, List.append_assoc] at h
      cases i with
      | zero =>
          rw [Nat.zero_mul, Nat.add_zero]
          exact h.slice_eq (hsize x)
      | succ i =>
          have hrec := ih (h.next (hsize x)) (Nat.lt_of_succ_lt_succ hi)
          rw [show offset + (i + 1) * size = offset + size + i * size by ring]
          exact hrec

end At

theorem length_flatMap {α : Type} {f : α → Bytes} {size : Nat} (hsize : ∀ x, (f x).length = size)
    (xs : List α) : (xs.flatMap f).length = xs.length * size := by
  induction xs with
  | nil => simp
  | cons x xs ih =>
      rw [List.flatMap_cons, List.length_append, ih, hsize, List.length_cons]
      ring

end ArrowCircuit.Bytes
