import ArrowCircuit.Proofs.PrimeField.Prime
import Mathlib.Algebra.Field.ZMod
import Mathlib.Tactic.LinearCombination

/-!
# Representatives of residues

The integers that programs compute with are representatives of elements of `ZMod p`.  Reduction does
not change the element, reduced integers are the values `ZMod.val` of their elements, and the
Euclidean loop finds inverses.
-/

namespace ArrowCircuit

/-! ## Canonical representatives -/

/-- A reduced integer: the representative of its residue. -/
def Canonical (p : Nat) (z : Int) : Prop := 0 ≤ z ∧ z < p

instance (p : Nat) (z : Int) : Decidable (Canonical p z) :=
  inferInstanceAs (Decidable (0 ≤ z ∧ z < p))

theorem canonical_val {p : Nat} [NeZero p] (x : ZMod p) : Canonical p (x.val : Int) :=
  ⟨Int.natCast_nonneg _, by exact_mod_cast x.val_lt⟩

/-- A canonical integer is recovered from its residue. -/
theorem Canonical.val_intCast {p : Nat} [NeZero p] {z : Int} (h : Canonical p z) :
    (((z : ZMod p).val : Nat) : Int) = z := by
  rw [ZMod.val_intCast, Int.emod_eq_of_lt h.1 h.2]

theorem Canonical.toNat_lt {p : Nat} {z : Int} (h : Canonical p z) : z.toNat < p :=
  (Int.toNat_lt h.1).mpr h.2

theorem Canonical.eq_zero_iff {p : Nat} [NeZero p] {z : Int} (h : Canonical p z) :
    (z : ZMod p) = 0 ↔ z = 0 := by
  rw [← ZMod.val_eq_zero, ← Int.natCast_eq_zero, h.val_intCast]

/-- Canonical integers are told apart by their residues. -/
theorem Canonical.eq_iff {p : Nat} [NeZero p] {y z : Int} (hy : Canonical p y) (hz : Canonical p z) :
    y = z ↔ (y : ZMod p) = z := by
  refine ⟨congrArg _, fun h => ?_⟩
  rw [← hy.val_intCast, h, hz.val_intCast]

/-- Reduction takes an integer to the representative of its residue. -/
theorem emod_eq_val (p : Nat) [NeZero p] (z : Int) : z % (p : Int) = ((z : ZMod p).val : Int) :=
  (ZMod.val_intCast z).symm

theorem natCast_powMod (m base exponent : Nat) :
    ((powMod base exponent m : Nat) : ZMod m) = (base : ZMod m) ^ exponent := by
  rw [powMod_eq, ZMod.natCast_mod, Nat.cast_pow]

namespace PrimeField

variable (f : PrimeField)

@[simp] theorem intCast_reduce (z : Int) : ((f.reduce z : Int) : ZMod f.modulus) = z := by
  rw [reduce, ZMod.intCast_mod]

theorem reduce_eq_val [NeZero f.modulus] (z : Int) :
    f.reduce z = ((z : ZMod f.modulus).val : Int) :=
  emod_eq_val _ z

theorem canonical_reduce [NeZero f.modulus] (z : Int) : Canonical f.modulus (f.reduce z) := by
  rw [reduce_eq_val]
  exact canonical_val _

theorem reduce_of_canonical {z : Int} (h : Canonical f.modulus z) : f.reduce z = z :=
  Int.emod_eq_of_lt h.1 h.2

end PrimeField

/-! ## Inverses -/

/-- The Euclidean loop returns an inverse of `a`.  The invariant is that `low` and `high` are
coprime multiples `lm * a` and `hm * a` of `a`; the loop ends at `low = 1`, since a greater `low`
that divides `high` would be a common divisor. -/
theorem Element.euclid_mul {m : Nat} (a : ZMod m) : ∀ (fuel : Nat) (lm hm low high : Int),
    1 ≤ low → low ≤ fuel → Int.gcd low high = 1 →
    (lm : ZMod m) * a = low → (hm : ZMod m) * a = high →
    (Element.euclid fuel lm hm low high : ZMod m) * a = 1 := by
  intro fuel
  induction fuel with
  | zero =>
      intro lm hm low high hlow hfuel
      exact absurd hfuel (by push_cast; omega)
  | succ fuel ih =>
      intro lm hm low high hlow hfuel hgcd hl hh
      rw [Element.euclid]
      by_cases hgt : low > 1
      · rw [if_pos hgt]
        have hrem : high - low * high.fdiv low = high.fmod low := by
          rw [Int.fmod_def]
        have hgcd' : Int.gcd (high.fmod low) low = 1 := by
          rw [Int.fmod_eq_emod_of_nonneg _ (by omega), Int.gcd_emod, Int.gcd_comm]
          exact hgcd
        have hnonneg : 0 ≤ high.fmod low := Int.fmod_nonneg_of_pos _ (by omega)
        have hne : high.fmod low ≠ 0 := by
          intro h0
          rw [h0, Int.gcd_zero_left] at hgcd'
          omega
        have hlt : high.fmod low < low := Int.fmod_lt_of_pos _ (by omega)
        apply ih
        · omega
        · push_cast at hfuel
          omega
        · rw [hrem]
          exact hgcd'
        · push_cast
          linear_combination hh - (high.fdiv low : ZMod m) * hl
        · exact hl
      · rw [if_neg hgt]
        have hone : low = 1 := by omega
        rw [hl, hone, Int.cast_one]

/-- The loop started on a nonzero residue of a prime modulus finds the inverse. -/
theorem Element.euclid_eq_inv {p : Nat} [Fact p.Prime] {low : Int} (h : Canonical p low)
    (h0 : low ≠ 0) :
    (Element.euclid low.toNat 1 0 low p : ZMod p) = (low : ZMod p)⁻¹ := by
  have hne : (low : ZMod p) ≠ 0 := fun hz => h0 (h.eq_zero_iff.mp hz)
  have hgcd : Int.gcd low p = 1 := by
    apply Nat.Coprime.symm
    apply (Nat.Prime.coprime_iff_not_dvd (Fact.out : p.Prime)).mpr
    intro hdvd
    exact hne ((ZMod.intCast_zmod_eq_zero_iff_dvd low p).mpr (Int.natCast_dvd.mpr hdvd))
  apply eq_inv_of_mul_eq_one_left
  apply Element.euclid_mul
  · have := h.1
    omega
  · exact Int.self_le_toNat low
  · exact hgcd
  · simp
  · simp

/-- Inversion succeeds on residues other than zero and gives the representative of the inverse. -/
theorem PrimeField.inv_eq (f : PrimeField) [Fact f.modulus.Prime] {z : Int}
    (h : (z : ZMod f.modulus) ≠ 0) :
    f.inv z = .ok (((z : ZMod f.modulus)⁻¹).val : Int) := by
  have hc := f.canonical_reduce z
  have hz : f.reduce z ≠ 0 := by
    intro h0
    exact h (by rw [← f.intCast_reduce, h0, Int.cast_zero])
  have hlow : (f.reduce z).fmod f.modulus = f.reduce z := f.reduce_fmod z
  have hinv : (f.element z).inv = .ok ((f.element z).reduce
      (Element.euclid (f.reduce z).toNat 1 0 (f.reduce z) f.modulus)) := by
    simp only [Element.inv, PrimeField.element, hlow]
    rw [if_neg hz]
  rw [PrimeField.inv, hinv]
  simp only [Element.reduce, PrimeField.element, bind, Except.bind, pure, Except.pure]
  rw [Int.fmod_eq_emod_of_nonneg _ (Int.natCast_nonneg _), emod_eq_val,
    Element.euclid_eq_inv hc hz, f.intCast_reduce]

end ArrowCircuit
