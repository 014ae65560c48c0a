import ArrowCircuit.Groth16.Verify
import ArrowCircuit.Proofs.Curve.Multiples
import ArrowCircuit.Proofs.Groth16.ProvingKey
import ArrowCircuit.Proofs.Groth16.Quotient
import ArrowCircuit.Proofs.Wire.Proof

/-!
# What the points of keys and proofs stand for

Setup turns lists of numbers into two keys, the prover combines the points of one key into a proof,
and the verifier pairs the points of the other with those of the proof.  This file follows the
numbers: which multiples of the generators the points are, and which equation of numbers makes the
verifier accept.
-/

namespace ArrowCircuit

open Groth16

/-- The numbers whose multiples of the generators are the points of a pair of keys. -/
structure Groth16.KeyNumbers where
  alpha : Int
  beta : Int
  gamma : Int
  delta : Int
  a : List Int
  b : List Int
  h : List Int
  l : List Int
  inputs : List Int

/-- The numbers whose multiples of the generators are the points of a proof. -/
structure Groth16.ProofNumbers where
  a : Int
  b : Int
  c : Int

variable {S : PairingSuite} {G₁ G₂ : Type} [AddCommGroup G₁] [AddCommGroup G₂]
  (M₁ : S.g1.Models G₁) (M₂ : S.g2.Models G₂)

/-! ## Keys and proofs as multiples -/

/-- The points of a proving key are the multiples by `x`. -/
structure Groth16.ProvingKey.Stands (k : ProvingKey S) (x : KeyNumbers) : Prop where
  alpha : M₁.Stands k.alpha x.alpha
  beta₁ : M₁.Stands k.beta₁ x.beta
  beta₂ : M₂.Stands k.beta₂ x.beta
  delta₁ : M₁.Stands k.delta₁ x.delta
  delta₂ : M₂.Stands k.delta₂ x.delta
  aQuery : List.Forall₂ M₁.Stands k.aQuery x.a
  b₁Query : List.Forall₂ M₁.Stands k.b₁Query x.b
  b₂Query : List.Forall₂ M₂.Stands k.b₂Query x.b
  hQuery : List.Forall₂ M₁.Stands k.hQuery x.h
  lQuery : List.Forall₂ M₁.Stands k.lQuery x.l

/-- The points of a verifying key are the multiples by `x`. -/
structure VerifyingKey.Stands (k : VerifyingKey S) (x : KeyNumbers) : Prop where
  alpha : M₁.Stands k.alpha x.alpha
  beta : M₂.Stands k.beta x.beta
  gamma : M₂.Stands k.gamma x.gamma
  delta : M₂.Stands k.delta x.delta
  inputs : List.Forall₂ M₁.Stands k.inputs x.inputs

/-- The points of a proof are the multiples by `y`. -/
structure Proof.Stands (p : Proof S) (y : ProofNumbers) : Prop where
  a : M₁.Stands p.a y.a
  b : M₂.Stands p.b y.b
  c : M₁.Stands p.c y.c

variable {M₁ M₂}

theorem PointGroup.Models.forall₂_stands_of_same {g : PointGroup} {M : g.Models G₁}
    {ps qs : List g.Point} {xs : List Int} (h : List.Forall₂ M.Stands ps xs)
    (hpq : List.Forall₂ M.Same ps qs) : List.Forall₂ M.Stands qs xs := by
  induction h generalizing qs with
  | nil =>
      cases hpq
      exact .nil
  | cons hp _ ih =>
      obtain ⟨q, qs, hq, hqs, rfl⟩ := List.forall₂_cons_left_iff.mp hpq
      exact .cons (hp.of_same hq) (ih hqs)

theorem PointGroup.Models.forall₂_same_self {g : PointGroup} {M : g.Models G₁}
    {ps : List g.Point} {xs : List Int} (h : List.Forall₂ M.Stands ps xs) :
    List.Forall₂ M.Same ps ps := by
  induction h with
  | nil => exact .nil
  | cons hp _ ih => exact .cons hp.same_self ih

namespace Groth16.ProvingKey.Stands

variable {k l : ProvingKey S} {x : KeyNumbers}

theorem same_self (h : k.Stands M₁ M₂ x) : k.Same M₁ M₂ k :=
  ⟨rfl, rfl, rfl, h.alpha.same_self, h.beta₁.same_self, h.beta₂.same_self, h.delta₁.same_self,
    h.delta₂.same_self, PointGroup.Models.forall₂_same_self h.aQuery,
    PointGroup.Models.forall₂_same_self h.b₁Query, PointGroup.Models.forall₂_same_self h.b₂Query,
    PointGroup.Models.forall₂_same_self h.hQuery, PointGroup.Models.forall₂_same_self h.lQuery⟩

theorem of_same (h : k.Stands M₁ M₂ x) (hkl : k.Same M₁ M₂ l) : l.Stands M₁ M₂ x :=
  ⟨h.alpha.of_same hkl.alpha, h.beta₁.of_same hkl.beta₁, h.beta₂.of_same hkl.beta₂,
    h.delta₁.of_same hkl.delta₁, h.delta₂.of_same hkl.delta₂,
    PointGroup.Models.forall₂_stands_of_same h.aQuery hkl.aQuery,
    PointGroup.Models.forall₂_stands_of_same h.b₁Query hkl.b₁Query,
    PointGroup.Models.forall₂_stands_of_same h.b₂Query hkl.b₂Query,
    PointGroup.Models.forall₂_stands_of_same h.hQuery hkl.hQuery,
    PointGroup.Models.forall₂_stands_of_same h.lQuery hkl.lQuery⟩

end Groth16.ProvingKey.Stands

namespace VerifyingKey.Stands

variable {k l : VerifyingKey S} {x : KeyNumbers}

theorem same_self (h : k.Stands M₁ M₂ x) : k.Same M₁ M₂ k :=
  ⟨h.alpha.same_self, h.beta.same_self, h.gamma.same_self, h.delta.same_self,
    PointGroup.Models.forall₂_same_self h.inputs⟩

theorem of_same (h : k.Stands M₁ M₂ x) (hkl : k.Same M₁ M₂ l) : l.Stands M₁ M₂ x :=
  ⟨h.alpha.of_same hkl.alpha, h.beta.of_same hkl.beta, h.gamma.of_same hkl.gamma,
    h.delta.of_same hkl.delta, PointGroup.Models.forall₂_stands_of_same h.inputs hkl.inputs⟩

end VerifyingKey.Stands

namespace Proof.Stands

variable {p q : Proof S} {y : ProofNumbers}

theorem same_self (h : p.Stands M₁ M₂ y) : p.Same M₁ M₂ p :=
  ⟨h.a.same_self, h.b.same_self, h.c.same_self⟩

theorem of_same (h : p.Stands M₁ M₂ y) (hpq : p.Same M₁ M₂ q) : q.Stands M₁ M₂ y :=
  ⟨h.a.of_same hpq.a, h.b.of_same hpq.b, h.c.of_same hpq.c⟩

end Proof.Stands

/-! ## Setup -/

namespace Groth16

/-- The sum `β u + α v + w` of the columns of the three sides. -/
def mixedColumns (n : Nat) (q : Qap) (t : Trapdoor) (basis : List Int) : List Int :=
  List.zipWith (fun u (v, w) => Poly.reduce (t.beta * u + t.alpha * v + w))
    (columnSums n q.a basis) ((columnSums n q.b basis).zip (columnSums n q.c basis))

/-- The numbers that setup computes for the rows of a program, from the basis values at the
trapdoor. -/
def keyNumbers (s : ConstraintSystem) (q : Qap) (t : Trapdoor) (basis : List Int) : KeyNumbers where
  alpha := t.alpha
  beta := t.beta
  gamma := t.gamma
  delta := t.delta
  a := columnSums s.numWitnesses q.a basis
  b := columnSums s.numWitnesses q.b basis
  h := (powers t.tau (q.size - 1) 1).map fun x =>
    x * Poly.vanishingAt q.size t.tau * Poly.inverse t.delta
  l := (mixedColumns s.numWitnesses q t basis).zipIdx.map fun (x, i) =>
    if s.instanceIndices.contains i then 0 else x * Poly.inverse t.delta
  inputs := s.instanceIndices.map fun i =>
    (mixedColumns s.numWitnesses q t basis).getD i 0 * Poly.inverse t.gamma

variable (S) in
/-- **Setup.** Given the basis values, the keys exist and their points stand for the key numbers. -/
theorem keys_eq (M₁ : S.g1.Models G₁) (M₂ : S.g2.Models G₂) {s : ConstraintSystem} {q : Qap}
    {t : Trapdoor} {basis : List Int} (hbasis : Poly.lagrange q.size t.tau = .ok basis) :
    ∃ pk vk, keys S s q t = .ok (pk, vk) ∧ pk.Stands M₁ M₂ (keyNumbers s q t basis) ∧
      vk.Stands M₁ M₂ (keyNumbers s q t basis) ∧ pk.numWitnesses = s.numWitnesses ∧
      pk.domainSize = q.size ∧ pk.indices = s.instanceIndices := by
  refine ⟨_, _, by rw [keys, hbasis]; rfl, ⟨PointGroup.Models.stands_ofScalar _,
    PointGroup.Models.stands_ofScalar _, PointGroup.Models.stands_ofScalar _,
    PointGroup.Models.stands_ofScalar _, PointGroup.Models.stands_ofScalar _,
    PointGroup.Models.forall₂_stands_ofScalar _, PointGroup.Models.forall₂_stands_ofScalar _,
    PointGroup.Models.forall₂_stands_ofScalar _, PointGroup.Models.forall₂_stands_map _ _, ?_⟩,
    ⟨PointGroup.Models.stands_ofScalar _, PointGroup.Models.stands_ofScalar _,
      PointGroup.Models.stands_ofScalar _, PointGroup.Models.stands_ofScalar _,
      PointGroup.Models.forall₂_stands_map _ _⟩, rfl, rfl, rfl⟩
  -- an index of the instance has the point at infinity in its place
  rw [keyNumbers, List.forall₂_map_left_iff, List.forall₂_map_right_iff]
  refine List.forall₂_same.mpr fun ⟨x, i⟩ _ => ?_
  dsimp only
  split
  · exact PointGroup.Models.stands_zero
  · exact PointGroup.Models.stands_ofScalar _

/-! ## Proving -/

/-- The values of a witness outside the instance, with zeros in the places of the instance. -/
def secretValues (indices : List Nat) (w : List Int) : List Int :=
  w.zipIdx.map fun (x, i) => if indices.contains i then 0 else x

/-- The numbers of the proof for a witness and a quotient, blinded by `r` and `u`. -/
def KeyNumbers.proof (x : KeyNumbers) (indices : List Nat) (w h : List Int) (r u : Nat) :
    ProofNumbers :=
  let a := x.alpha + dot x.a w + r * x.delta
  let b := x.beta + dot x.b w + u * x.delta
  ⟨a, b, dot x.l (secretValues indices w) + dot x.h h + (a * u + b * r) - r * u * x.delta⟩

/-- **Proving.** The points of a proof stand for the numbers of the proof. -/
theorem proofPoints_stands {k : ProvingKey S} {x : KeyNumbers} (hk : k.Stands M₁ M₂ x) (w h : List Int)
    (r u : Nat) :
    (proofPoints S k w h r u).Stands M₁ M₂ (x.proof k.indices w h r u) := by
  have ha : M₁.Stands (proofPoints S k w h r u).a (x.alpha + dot x.a w + r * x.delta) :=
    (hk.alpha.add (PointGroup.Models.stands_sum hk.aQuery w)).add (hk.delta₁.scale_or_zero r)
  have hb₁ : M₁.Stands (S.g1.add (S.g1.add k.beta₁ (S.g1.sum scalarModulus k.b₁Query w))
      (if u = 0 then S.g1.zero else S.g1.scale u k.delta₁)) (x.beta + dot x.b w + u * x.delta) :=
    (hk.beta₁.add (PointGroup.Models.stands_sum hk.b₁Query w)).add (hk.delta₁.scale_or_zero u)
  refine ⟨ha, ?_, ?_⟩
  · exact (hk.beta₂.add (PointGroup.Models.stands_sum hk.b₂Query w)).add (hk.delta₂.scale_or_zero u)
  · have hsum := ((PointGroup.Models.stands_sum hk.lQuery (secretValues k.indices w)).add
      (PointGroup.Models.stands_sum hk.hQuery h)).add
      (PointGroup.Models.stands_sum (.cons ha (.cons hb₁ .nil)) [(u : Int), (r : Int)])
    have hru : (((r * u % scalarModulus : Nat) : Int) : ZMod scalarModulus) = r * u := by
      rw [Int.cast_natCast, ZMod.natCast_mod, Nat.cast_mul]
    -- subtracting nothing is subtracting a multiple that vanishes
    simp only [proofPoints]
    split
    · next hzero =>
        rw [hzero, Nat.cast_zero, Int.cast_zero] at hru
        refine hsum.congr ?_
        simp only [dot, KeyNumbers.proof]
        push_cast
        rw [← hru]
        ring
    · refine (hsum.add (hk.delta₁.scale _).neg).congr ?_
      simp only [dot, KeyNumbers.proof]
      push_cast at hru ⊢
      rw [hru]
      ring

/-! ## Verifying -/

/-- What the left side of the verification equation has over the right one. -/
def KeyNumbers.gap (x : KeyNumbers) (y : ProofNumbers) (inputs : List Int) : ZMod scalarModulus :=
  y.a * y.b - (x.alpha * x.beta +
    ((x.inputs.headD 0 + dot (x.inputs.drop 1) inputs : Int) : ZMod scalarModulus) * x.gamma +
    y.c * x.delta)

theorem headD_stands {M : S.g1.Models G₁} {ps : List S.g1.Point} {xs : List Int}
    (h : List.Forall₂ M.Stands ps xs) : M.Stands (ps.headD S.g1.zero) (xs.headD 0) := by
  cases h with
  | nil => exact PointGroup.Models.stands_zero
  | cons hp _ => exact hp

section

variable {N₁ : S.curve.Models G₁} {N₂ : S.twist.Models G₂} (B : S.Bilinear N₁ N₂)
  {k : VerifyingKey S} {x : KeyNumbers}
  (hk : k.Stands (PairingSuite.model₁ N₁) (PairingSuite.model₂ N₂) x) {p : Proof S}
  {y : ProofNumbers} (hp : p.Stands (PairingSuite.model₁ N₁) (PairingSuite.model₂ N₂) y)
  {inputs : List Int}

include B hk hp

/-- The verifier compares two powers, whose exponents are the sides of the verification equation. -/
theorem accepts_iff_power_eq :
    accepts S k p inputs = true ↔ S.power (y.a * y.b) = S.power (x.alpha * x.beta +
      (x.inputs.headD 0 + dot (x.inputs.drop 1) inputs) * x.gamma + y.c * x.delta) := by
  have hsum := (headD_stands hk.inputs).add
    (PointGroup.Models.stands_sum (List.forall₂_drop 1 hk.inputs) inputs)
  rw [accepts, B.beq_iff, PairingSuite.pair_eq_power B hp.b hp.a,
    PairingSuite.pair_eq_power B hk.beta hk.alpha, PairingSuite.pair_eq_power B hk.gamma hsum,
    PairingSuite.pair_eq_power B hk.delta hp.c, PairingSuite.power_add B, PairingSuite.power_add B]

/-- **Verifying.** The verifier accepts when the verification equation leaves no gap. -/
theorem accepts_of_gap_eq_zero (hgap : x.gap y inputs = 0) : accepts S k p inputs = true := by
  rw [accepts_iff_power_eq B hk hp]
  refine PairingSuite.power_congr B ?_
  have heq := sub_eq_zero.mp hgap
  push_cast at heq ⊢
  exact heq

/-- Where the pairing is not degenerate, the verifier accepts in no other case. -/
theorem accepts_iff_gap_eq_zero (D : S.Nondegenerate) :
    accepts S k p inputs = true ↔ x.gap y inputs = 0 := by
  refine ⟨fun h => ?_, accepts_of_gap_eq_zero B hk hp⟩
  have heq := PairingSuite.intCast_eq_of_power_eq B D ((accepts_iff_power_eq B hk hp).mp h)
  refine sub_eq_zero.mpr ?_
  push_cast at heq ⊢
  exact heq

end

end Groth16

end ArrowCircuit
