import ArrowCircuit.Constraint.Check
import ArrowCircuit.Proofs.Curve.Laws
import ArrowCircuit.Proofs.PrimeField.Prime
import Mathlib.Algebra.Field.ZMod

/-!
# Multiples of the generators

The points that a proof system computes are multiples of the generators.  `Stands p x` says that `p`
is the `x`-fold of the generator; since the groups have the order of the scalar field, only the
residue of `x` matters.  Sums of multiples stand for inner products, and a pairing of points for the
product of their numbers.
-/

namespace ArrowCircuit

namespace PointGroup.Models

variable {g : PointGroup} {G : Type} [AddCommGroup G] (M : g.Models G)

/-- The point is the `x`-fold of the generator. -/
def Stands (p : g.Point) (x : Int) : Prop :=
  M.IsPoint p ∧ M.element p = x • M.element g.generator

variable {M}

theorem zsmul_eq_of_intCast_eq (hG : Nat.card G = scalarModulus) {x y : Int}
    (h : (x : ZMod scalarModulus) = y) (e : G) : x • e = y • e := by
  obtain ⟨k, hk⟩ := (ZMod.intCast_eq_intCast_iff_dvd_sub y x scalarModulus).mp h.symm
  have hcard : (scalarModulus : Int) • e = 0 := by
    rw [natCast_zsmul, ← hG]
    exact card_nsmul_eq_zero'
  have hx : x = y + k * scalarModulus := by
    rw [mul_comm, ← hk]
    ring
  rw [hx, add_smul, mul_smul, hcard, smul_zero, add_zero]

namespace Stands

variable {p q : g.Point} {x y : Int}

theorem congr (h : M.Stands p x) (hxy : (x : ZMod scalarModulus) = y) : M.Stands p y :=
  ⟨h.1, h.2.trans (zsmul_eq_of_intCast_eq M.card_eq hxy _)⟩

theorem of_same (h : M.Stands p x) (hpq : M.Same p q) : M.Stands q x :=
  ⟨hpq.2.1, hpq.2.2.symm.trans h.2⟩

theorem same_self (h : M.Stands p x) : M.Same p p := ⟨h.1, h.1, rfl⟩

theorem same (hp : M.Stands p x) (hq : M.Stands q y) (hxy : (x : ZMod scalarModulus) = y) :
    M.Same p q :=
  ⟨hp.1, hq.1, (hp.congr hxy).2.trans hq.2.symm⟩

theorem add (hp : M.Stands p x) (hq : M.Stands q y) : M.Stands (g.add p q) (x + y) :=
  ⟨M.isPoint_add hp.1 hq.1, by rw [M.element_add hp.1 hq.1, hp.2, hq.2, add_smul]⟩

theorem neg (hp : M.Stands p x) : M.Stands (g.neg p) (-x) :=
  ⟨M.isPoint_neg hp.1, by rw [M.element_neg hp.1, hp.2, neg_smul]⟩

theorem scale (n : Nat) (hp : M.Stands p x) : M.Stands (g.scale n p) (n * x) :=
  ⟨M.isPoint_scale n hp.1, by rw [M.element_scale n hp.1, hp.2, mul_smul, natCast_zsmul]⟩

end Stands

theorem stands_zero : M.Stands g.zero 0 := ⟨M.isPoint_zero, by rw [M.element_zero, zero_smul]⟩

theorem stands_generator : M.Stands g.generator 1 := ⟨M.isPoint_generator, (one_smul _ _).symm⟩

theorem Stands.scale_or_zero {p : g.Point} {x : Int} (n : Nat) (hp : M.Stands p x) :
    M.Stands (if n = 0 then g.zero else g.scale n p) (n * x) := by
  by_cases h : n = 0
  · rw [if_pos h, h, Nat.cast_zero, zero_mul]
    exact stands_zero
  · rw [if_neg h]
    exact hp.scale n

theorem intCast_toNat_emod (k : Int) :
    (((k % (scalarModulus : Int)).toNat : Int) : ZMod scalarModulus) = k := by
  rw [Int.toNat_of_nonneg (Int.emod_nonneg _ (by decide)), ZMod.intCast_mod]

theorem stands_ofScalar (k : Int) : M.Stands (g.ofScalar scalarModulus k) k := by
  refine (stands_generator.scale_or_zero (k % (scalarModulus : Int)).toNat).congr ?_
  rw [mul_one, intCast_toNat_emod]

/-- One summand: a scalar that is zero or a point that is zero adds nothing. -/
theorem Stands.sum_step {acc p : g.Point} {a x : Int} (hacc : M.Stands acc a) (hp : M.Stands p x)
    (k : Int) :
    M.Stands (if (k % (scalarModulus : Int)).toNat = 0 || g.isZero p then acc
      else g.add acc (g.scale (k % (scalarModulus : Int)).toNat p)) (a + x * k) := by
  by_cases h : (k % (scalarModulus : Int)).toNat = 0 || g.isZero p
  · rw [if_pos h]
    rcases Bool.or_eq_true _ _ |>.mp h with hk | hzero
    · -- the scalar is a multiple of the order
      have hcast := intCast_toNat_emod k
      rw [of_decide_eq_true hk, Nat.cast_zero, Int.cast_zero] at hcast
      refine hacc.congr ?_
      push_cast
      rw [← hcast, mul_zero, add_zero]
    · -- the point is zero, whatever `x` is
      have hx : x • M.element g.generator = 0 := hp.2.symm.trans ((M.isZero_iff hp.1).mp hzero)
      refine ⟨hacc.1, ?_⟩
      rw [add_smul, mul_comm, mul_smul, hx, smul_zero, add_zero, hacc.2]
  · rw [if_neg h]
    refine (hacc.add (hp.scale _)).congr ?_
    rw [Int.cast_add, Int.cast_mul, intCast_toNat_emod, Int.cast_add, Int.cast_mul,
      mul_comm (x : ZMod scalarModulus)]

/-- **Sums.** A sum of multiples stands for the inner product of numbers and scalars. -/
theorem stands_sum {points : List g.Point} {xs : List Int} (h : List.Forall₂ M.Stands points xs)
    (scalars : List Int) : M.Stands (g.sum scalarModulus points scalars) (dot xs scalars) := by
  -- the induction is on the points, for every partial sum
  have hfold : ∀ (scalars : List Int) (acc : g.Point) (a : Int), M.Stands acc a →
      M.Stands ((points.zip scalars).foldl (fun acc pk =>
        if (pk.2 % (scalarModulus : Int)).toNat = 0 || g.isZero pk.1 then acc
        else g.add acc (g.scale (pk.2 % (scalarModulus : Int)).toNat pk.1)) acc)
        (a + dot xs scalars) := by
    induction h with
    | nil =>
        intro scalars acc a hacc
        rw [List.zip_nil_left, List.foldl_nil, dot, add_zero]
        · exact hacc
        · exact nofun
    | @cons p x points xs hp hrest ih =>
        intro scalars acc a hacc
        cases scalars with
        | nil =>
            rw [List.zip_nil_right, List.foldl_nil, dot, add_zero]
            · exact hacc
            · exact nofun
        | cons k scalars =>
            rw [List.zip_cons_cons, List.foldl_cons, dot, ← add_assoc]
            exact ih scalars _ _ (hacc.sum_step hp k)
  have hsum := hfold scalars g.zero 0 stands_zero
  rwa [zero_add] at hsum

theorem forall₂_stands_map {α : Type} (xs : List α) (f : α → Int) :
    List.Forall₂ M.Stands (xs.map fun x => g.ofScalar scalarModulus (f x)) (xs.map f) := by
  rw [List.forall₂_map_left_iff, List.forall₂_map_right_iff]
  exact List.forall₂_same.mpr fun x _ => stands_ofScalar (f x)

theorem forall₂_stands_ofScalar (xs : List Int) :
    List.Forall₂ M.Stands (xs.map (g.ofScalar scalarModulus)) xs := by
  rw [List.forall₂_map_left_iff]
  exact List.forall₂_same.mpr fun x _ => stands_ofScalar x

end PointGroup.Models

/-! ## The pairing -/

namespace PairingSuite

variable (S : PairingSuite) {G₁ G₂ : Type} [AddCommGroup G₁] [AddCommGroup G₂]

/-- The pairing of the generator of the twist with a multiple of the generator of the curve. -/
def power (x : Int) : S.Target := S.pair S.g2.generator (S.g1.ofScalar scalarModulus x)

variable {S} (M₁ : S.curve.Models G₁) (M₂ : S.twist.Models G₂)

/-- The group of the curve. -/
def model₁ : S.g1.Models G₁ := M₁.pointGroup (by decide) "G1"

/-- The group of the twist. -/
def model₂ : S.g2.Models G₂ := M₂.pointGroup (by decide) "G2"

variable {M₁ M₂} (B : S.Bilinear M₁ M₂)

include B

/-- A positive multiple moves from one side of the pairing to the other.  The induction starts at one,
where bilinearity has something to say. -/
theorem pair_succ_nsmul (n : Nat) {q : S.twist.Point} {p p' : S.curve.Point} (hq : M₂.IsPoint q)
    (hp : M₁.IsPoint p) (hp' : M₁.IsPoint p')
    (hqn : M₂.element q = (n + 1) • M₂.element S.twist.generator)
    (hpn : M₁.element p' = (n + 1) • M₁.element p) :
    S.pair q p = S.pair S.twist.generator p' := by
  have hgen := M₂.isPoint_generator
  induction n generalizing q p' with
  | zero =>
      rw [zero_add, one_smul] at hqn hpn
      exact B.pair_congr hq hgen hp hp' hqn hpn.symm
  | succ n ih =>
      have hQ := M₂.isPoint_scale (n + 1) hgen
      have hP := M₁.isPoint_scale (n + 1) hp
      calc S.pair q p
          = S.pair (S.twist.add (S.twist.scale (n + 1) S.twist.generator) S.twist.generator) p := by
            refine B.pair_congr hq (M₂.isPoint_add hQ hgen) hp hp ?_ rfl
            rw [hqn, M₂.element_add hQ hgen, M₂.element_scale _ hgen, succ_nsmul]
        _ = S.mul (S.pair S.twist.generator (S.curve.scale (n + 1) p))
              (S.pair S.twist.generator p) := by
            rw [B.pair_add_left hQ hgen hp,
              ih hQ hP (M₂.element_scale _ hgen) (M₁.element_scale _ hp)]
        _ = S.pair S.twist.generator (S.curve.add (S.curve.scale (n + 1) p) p) :=
            (B.pair_add_right hgen hP hp).symm
        _ = S.pair S.twist.generator p' := by
            refine B.pair_congr hgen hgen (M₁.isPoint_add hP hp) hp' rfl ?_
            rw [M₁.element_add hP hp, M₁.element_scale _ hp, hpn, succ_nsmul _ (n + 1)]

/-- **Pairings.** The pairing of two multiples is the power by the product of their numbers. -/
theorem pair_eq_power {q : S.g2.Point} {p : S.g1.Point} {a b : Int}
    (hq : (model₂ M₂).Stands q b) (hp : (model₁ M₁).Stands p a) : S.pair q p = S.power (a * b) := by
  -- a representative of `b` that is at least one
  have hn : ((((b - 1) % (scalarModulus : Int)).toNat + 1 : Nat) : ZMod scalarModulus) = b := by
    have hcast := PointGroup.Models.intCast_toNat_emod (b - 1)
    push_cast at hcast ⊢
    rw [hcast]
    ring
  generalize ((b - 1) % (scalarModulus : Int)).toNat = n at hn
  have hq' : (model₂ M₂).Stands q ((n + 1 : Nat) : Int) := hq.congr (by rw [← hn]; push_cast; rfl)
  have hpower : (model₁ M₁).Stands (S.g1.ofScalar scalarModulus (a * b)) ((n + 1 : Nat) * a) := by
    refine PointGroup.Models.stands_ofScalar (M := model₁ M₁) (a * b) |>.congr ?_
    push_cast at hn ⊢
    rw [hn]
    ring
  refine pair_succ_nsmul B n hq.1 hp.1 hpower.1 ?_ ?_
  · rw [← natCast_zsmul]
    exact hq'.2
  · rw [← natCast_zsmul]
    exact hpower.2.trans (by rw [mul_smul]; exact congrArg _ hp.2.symm)

theorem power_add (x y : Int) : S.mul (S.power x) (S.power y) = S.power (x + y) := by
  have hx := PointGroup.Models.stands_ofScalar (M := model₁ M₁) x
  have hy := PointGroup.Models.stands_ofScalar (M := model₁ M₁) y
  have hxy := PointGroup.Models.stands_ofScalar (M := model₁ M₁) (x + y)
  have hgen := M₂.isPoint_generator
  calc S.mul (S.power x) (S.power y)
      = S.pair S.g2.generator (S.g1.add (S.g1.ofScalar scalarModulus x)
          (S.g1.ofScalar scalarModulus y)) := (B.pair_add_right hgen hx.1 hy.1).symm
    _ = S.power (x + y) :=
        B.pair_congr hgen hgen (hx.add hy).1 hxy.1 rfl ((hx.add hy).2.trans hxy.2.symm)

theorem power_congr {x y : Int} (h : (x : ZMod scalarModulus) = y) : S.power x = S.power y := by
  have hx := PointGroup.Models.stands_ofScalar (M := model₁ M₁) x
  have hy := PointGroup.Models.stands_ofScalar (M := model₁ M₁) y
  have hgen := M₂.isPoint_generator
  exact B.pair_congr hgen hgen hx.1 hy.1 rfl ((hx.congr h).2.trans hy.2.symm)

theorem power_one_ne_power_zero (D : S.Nondegenerate) : S.power 1 ≠ S.power 0 := by
  intro h
  have hgen := M₂.isPoint_generator
  have hone := PointGroup.Models.stands_ofScalar (M := model₁ M₁) 1
  refine D ?_
  calc S.pair S.twist.generator S.curve.generator
      = S.power 1 := B.pair_congr hgen hgen M₁.isPoint_generator hone.1 rfl
          (hone.2.trans (one_smul _ _)).symm
    _ = S.power 0 := h
    _ = S.pair S.twist.generator S.curve.zero := rfl

theorem power_nat_mul {x : Int} (h : S.power x = S.power 0) (n : Nat) :
    S.power (n * x) = S.power 0 := by
  induction n with
  | zero => rw [Nat.cast_zero, zero_mul]
  | succ n ih =>
      rw [Nat.cast_succ, add_mul, one_mul, ← power_add B, ih, h, power_add B, add_zero]

/-- **Powers.** Where the pairing is not degenerate, a power determines its exponent: of a difference
that is not zero some multiple is one. -/
theorem intCast_eq_of_power_eq (D : S.Nondegenerate) {x y : Int}
    (h : S.power x = S.power y) : (x : ZMod scalarModulus) = y := by
  by_contra hne
  have hd : ((x - y : Int) : ZMod scalarModulus) ≠ 0 := by
    rw [Int.cast_sub]
    exact sub_ne_zero.mpr hne
  have hdiff : S.power (x - y) = S.power 0 := by
    rw [sub_eq_add_neg, ← power_add B, h, power_add B, add_neg_cancel]
  have hpower := power_nat_mul B hdiff (((x - y : Int) : ZMod scalarModulus)⁻¹).val
  refine power_one_ne_power_zero B D ((power_congr B ?_).trans hpower)
  rw [Int.cast_mul, Int.cast_natCast, ZMod.natCast_zmod_val, inv_mul_cancel₀ hd, Int.cast_one]

end PairingSuite

end ArrowCircuit
