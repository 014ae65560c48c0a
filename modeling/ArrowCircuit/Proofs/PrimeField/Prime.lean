import ArrowCircuit.PrimeField.Basic
import Mathlib.NumberTheory.LucasPrimality
import Mathlib.Tactic.NormNum.Prime

/-!
# The scalar modulus is prime

`powMod` computes powers, and by Lucas's criterion a few of them certify a prime `p` whose
predecessor factors into known primes.  The chain of certificates at the end of this file climbs
from primes of a few digits to the scalar modulus.
-/

namespace ArrowCircuit

/-! ## Modular powers -/

/-- The loop multiplies its accumulator by the power, provided the fuel covers the binary digits of
the exponent. -/
theorem powModLoop_eq (m : Nat) : ∀ (fuel base exponent acc : Nat), exponent < 2 ^ fuel →
    acc % m = acc → powModLoop m fuel base exponent acc = acc * base ^ exponent % m := by
  intro fuel
  induction fuel with
  | zero =>
      intro base exponent acc he hacc
      have h0 : exponent = 0 := by simpa using he
      rw [powModLoop, h0, pow_zero, mul_one, hacc]
  | succ fuel ih =>
      intro base exponent acc he hacc
      rw [powModLoop]
      by_cases h0 : exponent = 0
      · rw [if_pos h0, h0, pow_zero, mul_one, hacc]
      · rw [if_neg h0]
        have hhalf : exponent / 2 < 2 ^ fuel := by
          rw [pow_succ] at he
          omega
        have hsquare : (base * base % m) ^ (exponent / 2) ≡ base ^ (2 * (exponent / 2)) [MOD m] := by
          rw [pow_mul, sq]
          exact (Nat.mod_modEq _ _).pow _
        by_cases hodd : exponent % 2 = 1
        · simp only [if_pos hodd]
          rw [ih _ _ _ hhalf (Nat.mod_mod _ _)]
          have hsplit : exponent = 2 * (exponent / 2) + 1 := by omega
          conv_rhs => rw [hsplit, pow_succ, mul_comm (base ^ _), ← mul_assoc]
          exact (Nat.mod_modEq _ _).mul hsquare
        · simp only [if_neg hodd]
          rw [ih _ _ _ hhalf hacc]
          have hsplit : exponent = 2 * (exponent / 2) := by omega
          conv_rhs => rw [hsplit]
          exact (Nat.ModEq.refl acc).mul hsquare

theorem powMod_eq (base exponent m : Nat) : powMod base exponent m = base ^ exponent % m := by
  rw [powMod, powModLoop_eq m _ _ _ _ Nat.lt_log2_self (Nat.mod_mod _ _)]
  exact (((Nat.mod_modEq 1 m).mul ((Nat.mod_modEq base m).pow exponent))).trans
    (by rw [one_mul])

/-! ## Lucas certificates -/

/-- The powers of `a` modulo `p` that Lucas's criterion asks for, where `factors` are the prime
factors of `p - 1`, repeated as often as they occur. -/
def lucasTest (p a : Nat) (factors : List Nat) : Bool :=
  1 < p && factors.prod == p - 1 && powMod a (p - 1) p == 1 &&
    factors.all fun q => powMod a ((p - 1) / q) p != 1

theorem natCast_pow_eq_one_iff {p : Nat} (hp : 1 < p) (a n : Nat) :
    (a : ZMod p) ^ n = 1 ↔ powMod a n p = 1 := by
  rw [powMod_eq, ← Nat.cast_pow, ← Nat.cast_one, ZMod.natCast_eq_natCast_iff',
    Nat.mod_eq_of_lt hp]

/-- A number that passes the test with prime factors is prime. -/
theorem prime_of_lucasTest {p : Nat} (a : Nat) (factors : List Nat)
    (hfactors : ∀ q ∈ factors, q.Prime) (h : lucasTest p a factors = true) : p.Prime := by
  simp only [lucasTest, Bool.and_eq_true, decide_eq_true_eq, beq_iff_eq, List.all_eq_true,
    bne_iff_ne] at h
  obtain ⟨⟨⟨hp, hprod⟩, hfull⟩, hparts⟩ := h
  apply lucas_primality p (a : ZMod p)
  · exact (natCast_pow_eq_one_iff hp _ _).mpr hfull
  · intro q hq hdvd hone
    rw [← hprod] at hdvd
    obtain ⟨r, hr, hqr⟩ := (Prime.dvd_prod_iff hq.prime).mp hdvd
    have hqr : q = r := (Nat.prime_dvd_prime_iff_eq hq (hfactors r hr)).mp hqr
    subst hqr
    exact hparts q hr ((natCast_pow_eq_one_iff hp _ _).mp hone)

/-! ## The certificates -/

theorem prime_405928799 : Nat.Prime 405928799 :=
  prime_of_lucasTest 22 [2, 11, 3691, 4999]
    (by simp only [List.forall_mem_cons, List.not_mem_nil]; norm_num) (by decide +kernel)

theorem prime_5156902474397 : Nat.Prime 5156902474397 :=
  have h : Nat.Prime 12048837557 :=
    prime_of_lucasTest 2 [2, 2, 7, 7, 661, 93001]
      (by simp only [List.forall_mem_cons, List.not_mem_nil]; norm_num) (by decide +kernel)
  prime_of_lucasTest 2 [2, 2, 107, 12048837557]
    (by simp only [List.forall_mem_cons, List.not_mem_nil, h]; norm_num) (by decide +kernel)

theorem prime_1670836401704629 : Nat.Prime 1670836401704629 :=
  prime_of_lucasTest 2 [2, 2, 3, 3, 3, 3, 5156902474397]
    (by simp only [List.forall_mem_cons, List.not_mem_nil, prime_5156902474397]; norm_num)
    (by decide +kernel)

theorem prime_65865678001877903 : Nat.Prime 65865678001877903 :=
  have h : Nat.Prime 639533339 :=
    prime_of_lucasTest 2 [2, 229, 853, 1637]
      (by simp only [List.forall_mem_cons, List.not_mem_nil]; norm_num) (by decide +kernel)
  prime_of_lucasTest 5 [2, 83, 379, 1637, 639533339]
    (by simp only [List.forall_mem_cons, List.not_mem_nil, h]; norm_num) (by decide +kernel)

theorem prime_13818364434197438864469338081 : Nat.Prime 13818364434197438864469338081 :=
  prime_of_lucasTest 3 [2, 2, 2, 2, 2, 5, 823, 1593227, 65865678001877903]
    (by simp only [List.forall_mem_cons, List.not_mem_nil, prime_65865678001877903]; norm_num)
    (by decide +kernel)

/-- The scalar modulus is prime. -/
theorem scalarModulus_prime : scalarModulus.Prime :=
  prime_of_lucasTest 5
    (List.replicate 28 2 ++ [3, 3, 13, 29, 983, 11003, 237073, 405928799, 1670836401704629,
      13818364434197438864469338081])
    (by
      simp only [List.forall_mem_append, List.mem_replicate, List.forall_mem_cons,
        List.not_mem_nil, prime_405928799, prime_1670836401704629,
        prime_13818364434197438864469338081]
      norm_num)
    (by decide +kernel)

instance : Fact scalarModulus.Prime := ⟨scalarModulus_prime⟩

instance : Fact PrimeField.scalar.modulus.Prime := ⟨scalarModulus_prime⟩

end ArrowCircuit
