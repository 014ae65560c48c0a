import ArrowCircuit.Curve.BaseField
import ArrowCircuit.Proofs.PrimeField.Residue
import Mathlib.Algebra.QuadraticAlgebra.Basic
import Mathlib.NumberTheory.LegendreSymbol.Basic

/-!
# Coordinates are fields

The order of the base field is prime, so that its elements are those of `ZMod baseModulus`.  It leaves
the remainder three modulo four: minus one has no square root, and the pairs `re + im · i` are the
quadratic extension.
-/

namespace ArrowCircuit

/-! ## The order of the base field -/

theorem prime_2480874801745591 : Nat.Prime 2480874801745591 :=
  have h : Nat.Prime 1263766531 :=
    prime_of_lucasTest 10 [2, 3, 5, 13, 911, 3557]
      (by simp only [List.forall_mem_cons, List.not_mem_nil]; norm_num) (by decide +kernel)
  have h' : Nat.Prime 35385462869 :=
    prime_of_lucasTest 2 [2, 2, 7, 1263766531]
      (by simp only [List.forall_mem_cons, List.not_mem_nil, h]; norm_num) (by decide +kernel)
  prime_of_lucasTest 6 [2, 3, 3, 5, 19, 41, 35385462869]
    (by simp only [List.forall_mem_cons, List.not_mem_nil, h']; norm_num) (by decide +kernel)

theorem prime_13427688667394608761327070753331941386769 :
    Nat.Prime 13427688667394608761327070753331941386769 :=
  have h : Nat.Prime 173171039 :=
    prime_of_lucasTest 13 [2, 73, 89, 13327]
      (by simp only [List.forall_mem_cons, List.not_mem_nil]; norm_num) (by decide +kernel)
  prime_of_lucasTest 17 [2, 2, 2, 2, 3, 7, 11, 1853641, 4562087, 173171039, 2480874801745591]
    (by simp only [List.forall_mem_cons, List.not_mem_nil, h, prime_2480874801745591]; norm_num)
    (by decide +kernel)

theorem prime_11465965001 : Nat.Prime 11465965001 :=
  prime_of_lucasTest 3 [2, 2, 2, 5, 5, 5, 5, 7, 327599]
    (by simp only [List.forall_mem_cons, List.not_mem_nil]; norm_num) (by decide +kernel)

/-- The order of the base field is prime. -/
theorem baseModulus_prime : baseModulus.Prime :=
  prime_of_lucasTest 3
    [2, 3, 3, 13, 29, 67, 229, 311, 983, 11003, 405928799, 11465965001,
      13427688667394608761327070753331941386769]
    (by
      simp only [List.forall_mem_cons, List.not_mem_nil, prime_405928799, prime_11465965001,
        prime_13427688667394608761327070753331941386769]
      norm_num)
    (by decide +kernel)

instance : Fact baseModulus.Prime := ⟨baseModulus_prime⟩

/-- Coordinates that are the elements of a field. -/
structure Coordinate.IsField (F K : Type) [Coordinate F] [Field K] where
  toField : F ≃ K
  map_add : ∀ a b : F, toField (a + b) = toField a + toField b
  map_sub : ∀ a b : F, toField (a - b) = toField a - toField b
  map_mul : ∀ a b : F, toField (a * b) = toField a * toField b
  map_neg : ∀ a : F, toField (-a) = -toField a
  map_zero : toField Coordinate.zero = 0
  map_one : toField Coordinate.one = 1
  map_inv : ∀ {a : F}, a ≠ Coordinate.zero → toField (Coordinate.inv a) = (toField a)⁻¹

namespace Fq

/-- The residue of an element. -/
def residue (a : Fq) : ZMod baseModulus := a.val

theorem residue_ofNat (n : Nat) : (ofNat n).residue = n := ZMod.natCast_mod n baseModulus

theorem val_residue (a : Fq) : a.residue.val = a.val := ZMod.val_cast_of_lt a.isLt

theorem eq_of_val {a b : Fq} (h : a.val = b.val) : a = b := by
  cases a
  cases b
  cases h
  rfl

theorem natCast_modulus_sub (a : Fq) :
    ((baseModulus - a.val : Nat) : ZMod baseModulus) = -a.residue := by
  rw [Nat.cast_sub a.isLt.le, ZMod.natCast_self, zero_sub, residue]

/-- The Euclidean loop inverts what is not zero. -/
theorem residue_inv {a : Fq} (h : a ≠ Coordinate.zero) : (inv a).residue = a.residue⁻¹ := by
  have hcanonical : Canonical baseModulus (a.val : Int) :=
    ⟨Int.natCast_nonneg _, Int.ofNat_lt.mpr a.isLt⟩
  have hval : a.val ≠ 0 := fun hzero => h (eq_of_val hzero)
  have heuclid := Element.euclid_eq_inv hcanonical (Int.natCast_ne_zero.mpr hval)
  rw [Int.toNat_natCast] at heuclid
  have hpos : (0 : Int) < baseModulus := Int.natCast_pos.mpr modulus_pos
  have hcast : ∀ z : Int, (((z % (baseModulus : Int)).toNat : Nat) : ZMod baseModulus) = z := by
    intro z
    rw [← Int.cast_natCast, Int.toNat_of_nonneg (Int.emod_nonneg z hpos.ne'), ZMod.intCast_mod]
  rw [inv, residue_ofNat, hcast, heuclid, Int.cast_natCast, residue]

/-- The elements of the base field are the residues modulo its order. -/
def isField : Coordinate.IsField Fq (ZMod baseModulus) where
  toField :=
    { toFun := residue
      invFun := fun x => ⟨x.val, x.val_lt⟩
      left_inv := fun a => eq_of_val (val_residue a)
      right_inv := fun x => ZMod.natCast_zmod_val x }
  map_add a b := (residue_ofNat _).trans (Nat.cast_add _ _)
  map_sub a b := by
    refine (residue_ofNat _).trans ?_
    rw [Nat.cast_add, natCast_modulus_sub, ← sub_eq_add_neg]
    rfl
  map_mul a b := (residue_ofNat _).trans (Nat.cast_mul _ _)
  map_neg a := (residue_ofNat _).trans (natCast_modulus_sub a)
  map_zero := (residue_ofNat 0).trans Nat.cast_zero
  map_one := (residue_ofNat 1).trans Nat.cast_one
  map_inv := residue_inv

end Fq

namespace Fq2

/-- The extension of the residues by a square root of minus one. -/
abbrev Residue : Type := QuadraticAlgebra (ZMod baseModulus) (-1) 0

/-- Minus one has no square root, since the order of the base field is three modulo four. -/
instance : Fact (∀ r : ZMod baseModulus, r ^ 2 ≠ -1 + 0 * r) where
  out r hr := by
    have hsquare : IsSquare (-1 : ZMod baseModulus) := ⟨r, by rw [← pow_two, hr, zero_mul, add_zero]⟩
    exact absurd (ZMod.exists_sq_eq_neg_one_iff.mp hsquare) (by decide +kernel)

/-- The residue of an element. -/
def residue (a : Fq2) : Residue := ⟨a.re.residue, a.im.residue⟩

/-- The product of three products in the base field. -/
theorem residue_mul (a b : Fq2) : residue (a * b) = residue a * residue b := by
  have hre : (a * b).re.residue = a.re.residue * b.re.residue - a.im.residue * b.im.residue := by
    exact (Fq.isField.map_sub _ _).trans
      (congrArg₂ (· - ·) (Fq.isField.map_mul _ _) (Fq.isField.map_mul _ _))
  have him : (a * b).im.residue =
      (a.re.residue + a.im.residue) * (b.re.residue + b.im.residue) -
        a.re.residue * b.re.residue - a.im.residue * b.im.residue := by
    have hsum : ((a.re + a.im) * (b.re + b.im)).residue =
        (a.re.residue + a.im.residue) * (b.re.residue + b.im.residue) :=
      (Fq.isField.map_mul _ _).trans
        (congrArg₂ (· * ·) (Fq.isField.map_add _ _) (Fq.isField.map_add _ _))
    have hre' := Fq.isField.map_mul a.re b.re
    have him' := Fq.isField.map_mul a.im b.im
    exact (Fq.isField.map_sub _ _).trans (congrArg₂ (· - ·)
      ((Fq.isField.map_sub _ _).trans (congrArg₂ (· - ·) hsum hre')) him')
  ext
  · rw [residue, hre, QuadraticAlgebra.re_mul, residue, residue]
    ring
  · rw [residue, him, QuadraticAlgebra.im_mul, residue, residue]
    ring

/-- The inverse by way of the norm, which vanishes only at zero. -/
theorem residue_inv {a : Fq2} (h : a ≠ Coordinate.zero) : residue (inv a) = (residue a)⁻¹ := by
  have hnorm : (a.re * a.re + a.im * a.im).residue = QuadraticAlgebra.norm (residue a) := by
    have hsum : (a.re * a.re + a.im * a.im).residue =
        a.re.residue * a.re.residue + a.im.residue * a.im.residue :=
      (Fq.isField.map_add _ _).trans
        (congrArg₂ (· + ·) (Fq.isField.map_mul _ _) (Fq.isField.map_mul _ _))
    rw [hsum, QuadraticAlgebra.norm_def, residue]
    ring
  have hne : a.re * a.re + a.im * a.im ≠ Coordinate.zero := by
    intro hzero
    rw [hzero, show (Coordinate.zero : Fq).residue = 0 from Fq.isField.map_zero] at hnorm
    have hresidue : residue a = 0 := QuadraticAlgebra.norm_eq_zero_iff_eq_zero.mp hnorm.symm
    apply h
    cases a with
    | mk re im =>
        have hre : re.residue = 0 := congrArg QuadraticAlgebra.re hresidue
        have him : im.residue = 0 := congrArg QuadraticAlgebra.im hresidue
        rw [Fq.isField.toField.injective (hre.trans Fq.isField.map_zero.symm),
          Fq.isField.toField.injective (him.trans Fq.isField.map_zero.symm)]
        rfl
  have hinv := Fq.residue_inv hne
  rw [hnorm] at hinv
  have hre : (inv a).re.residue = (QuadraticAlgebra.norm (residue a))⁻¹ * a.re.residue :=
    (Fq.isField.map_mul _ _).trans (congrArg (· * a.re.residue) hinv)
  have him : (inv a).im.residue = (QuadraticAlgebra.norm (residue a))⁻¹ * -a.im.residue :=
    (Fq.isField.map_mul _ _).trans (congrArg₂ (· * ·) hinv (Fq.isField.map_neg _))
  ext
  · rw [residue, hre, QuadraticAlgebra.inv_def, QuadraticAlgebra.re_smul, QuadraticAlgebra.re_star,
      smul_eq_mul, zero_mul, add_zero]
    rfl
  · rw [residue, him, QuadraticAlgebra.inv_def, QuadraticAlgebra.im_smul, QuadraticAlgebra.im_star,
      smul_eq_mul]
    rfl

/-- The pairs of elements of the base field are the elements of its quadratic extension. -/
def isField : Coordinate.IsField Fq2 Residue where
  toField :=
    { toFun := residue
      invFun := fun x => ⟨Fq.isField.toField.symm x.re, Fq.isField.toField.symm x.im⟩
      left_inv := fun a => congrArg₂ mk (Fq.isField.toField.symm_apply_apply a.re)
        (Fq.isField.toField.symm_apply_apply a.im)
      right_inv := fun x => QuadraticAlgebra.ext (Fq.isField.toField.apply_symm_apply x.re)
        (Fq.isField.toField.apply_symm_apply x.im) }
  map_add a b := QuadraticAlgebra.ext (Fq.isField.map_add a.re b.re) (Fq.isField.map_add a.im b.im)
  map_sub a b := QuadraticAlgebra.ext (Fq.isField.map_sub a.re b.re) (Fq.isField.map_sub a.im b.im)
  map_mul := residue_mul
  map_neg a := QuadraticAlgebra.ext (Fq.isField.map_neg a.re) (Fq.isField.map_neg a.im)
  map_zero := QuadraticAlgebra.ext Fq.isField.map_zero Fq.isField.map_zero
  map_one := QuadraticAlgebra.ext Fq.isField.map_one Fq.isField.map_zero
  map_inv := residue_inv

end Fq2

end ArrowCircuit
