import ArrowCircuit.Proofs.PrimeField.Residue
import Mathlib.Data.Nat.Factorization.Basic
import Mathlib.FieldTheory.Finite.Basic
import Mathlib.GroupTheory.OrderOfElement

/-!
# The primality test

A number `n = d * 2 ^ s + 1` with `d` odd passes for a base `a` if `a ^ d` is one modulo `n`, or if it
or one of its next `s - 1` squares is minus one.  Modulo a prime factor the first of these squares to
be one is told by the power of two in the order of `a`, so that an odd number passes exactly when
Fermat's congruence holds and the orders modulo all prime factors have the same power of two.

The loops of the test compute just this.  The test therefore accepts every prime, and besides the
primes exactly the composite numbers that pass for all twelve bases, of which there is one of 24
digits.
-/

namespace ArrowCircuit

namespace Primality

/-! ## Powers of two in orders -/

/-- How often two divides the order of an element. -/
noncomputable def twoPart {R : Type*} [Monoid R] (x : R) : Nat := (orderOf x).factorization 2

/-- Among the repeated squares of an odd power, the first to be one is told by the power of two in
the order. -/
theorem pow_eq_one_iff_twoPart_le {R : Type*} [Monoid R] {x : R} {d s : Nat} (hd : Odd d)
    (h : x ^ (d * 2 ^ s) = 1) (r : Nat) : x ^ (d * 2 ^ r) = 1 ↔ twoPart x ≤ r := by
  have hdvd : orderOf x ∣ d * 2 ^ s := orderOf_dvd_of_pow_eq_one h
  have hne : orderOf x ≠ 0 := ne_zero_of_dvd_ne_zero (Nat.mul_pos hd.pos (by positivity)).ne' hdvd
  have hsplit : 2 ^ twoPart x * (orderOf x / 2 ^ twoPart x) = orderOf x :=
    Nat.ordProj_mul_ordCompl_eq_self (orderOf x) 2
  have hcop : Nat.Coprime 2 (orderOf x / 2 ^ twoPart x) := Nat.coprime_ordCompl Nat.prime_two hne
  rw [← orderOf_dvd_iff_pow_eq_one]
  constructor
  · intro hr
    have htwo : 2 ^ twoPart x ∣ 2 ^ r := by
      refine Nat.Coprime.dvd_of_dvd_mul_left ?_ ((Dvd.intro _ hsplit).trans hr)
      exact Nat.Coprime.pow_left _ (Nat.coprime_two_left.mpr hd)
    exact (Nat.pow_dvd_pow_iff_le_right Nat.one_lt_two).mp htwo
  · intro hr
    have hodd : orderOf x / 2 ^ twoPart x ∣ d :=
      (hcop.symm.pow_right s).dvd_of_dvd_mul_right ((Dvd.intro_left _ hsplit).trans hdvd)
    rw [← hsplit, mul_comm d]
    exact Nat.mul_dvd_mul (pow_dvd_pow 2 hr) hodd

/-! ## Square roots of one -/

section

variable {n : Nat} (hn : Odd n)
include hn

theorem two_lt_of_prime_dvd {q : Nat} (hq : q.Prime) (hqn : q ∣ n) : 2 < q := by
  have hodd : Odd q := hn.of_dvd_nat hqn
  have := hq.two_le
  obtain ⟨k, hk⟩ := hodd
  omega

/-- A square root of one modulo an odd number is one if it is one modulo every prime factor. -/
theorem eq_one_of_forall_prime {z : Int} (hz : (z : ZMod n) ^ 2 = 1)
    (h : ∀ q : Nat, q.Prime → q ∣ n → (z : ZMod q) = 1) : (z : ZMod n) = 1 := by
  -- a prime factor of `z + 1` would divide `z - 1` as well, and so be two
  have hcop : IsCoprime (n : Int) (z + 1) := by
    rw [Int.isCoprime_iff_gcd_eq_one, Int.gcd_def, Int.natAbs_natCast]
    refine Nat.coprime_of_dvd fun q hq hqn hqz => ?_
    have hplus : ((z + 1 : Int) : ZMod q) = 0 :=
      (ZMod.intCast_zmod_eq_zero_iff_dvd _ _).mpr (Int.natCast_dvd.mpr hqz)
    have : Fact (2 < q) := ⟨two_lt_of_prime_dvd hn hq hqn⟩
    rw [Int.cast_add, h q hq hqn, Int.cast_one] at hplus
    exact ZMod.neg_one_ne_one (eq_neg_of_add_eq_zero_left hplus).symm
  have hdvd : (n : Int) ∣ (z - 1) * (z + 1) := by
    rw [← ZMod.intCast_zmod_eq_zero_iff_dvd]
    push_cast
    linear_combination hz
  have hminus := (ZMod.intCast_zmod_eq_zero_iff_dvd _ _).mpr (hcop.dvd_of_dvd_mul_right hdvd)
  rw [Int.cast_sub, Int.cast_one] at hminus
  exact sub_eq_zero.mp hminus

theorem eq_neg_one_of_forall_prime {z : Int} (hz : (z : ZMod n) ^ 2 = 1)
    (h : ∀ q : Nat, q.Prime → q ∣ n → (z : ZMod q) = -1) : (z : ZMod n) = -1 := by
  have hneg : ((-z : Int) : ZMod n) = 1 := by
    refine eq_one_of_forall_prime hn ?_ fun q hq hqn => ?_
    · rw [Int.cast_neg, neg_sq, hz]
    · rw [Int.cast_neg, h q hq hqn, neg_neg]
  rw [← hneg, Int.cast_neg, neg_neg]

/-- Repeated squares that come to one do so as soon as they are one modulo every prime factor. -/
theorem pow_eq_one_of_forall_prime {y : Int} {k s : Nat} (hks : k ≤ s)
    (hs : (y : ZMod n) ^ 2 ^ s = 1)
    (h : ∀ q : Nat, q.Prime → q ∣ n → (y : ZMod q) ^ 2 ^ k = 1) : (y : ZMod n) ^ 2 ^ k = 1 := by
  -- down from `s` to `k`: each is a square root of one, and one modulo every prime factor
  induction s, hks using Nat.le_induction with
  | base => exact hs
  | succ s hks ih =>
      refine ih ?_
      have hroot : ((y ^ 2 ^ s : Int) : ZMod n) = 1 := by
        refine eq_one_of_forall_prime hn ?_ fun q hq hqn => ?_
        · rw [Int.cast_pow, ← pow_mul, ← pow_succ, hs]
        · obtain ⟨t, rfl⟩ := Nat.exists_eq_add_of_le hks
          rw [Int.cast_pow, pow_add, pow_mul, h q hq hqn, one_pow]
      rwa [Int.cast_pow] at hroot

end

/-! ## Strong probable primes -/

/-- The powers of `a` modulo `n`, where `n - 1 = d * 2 ^ s`, are such as they are modulo a prime: the
odd power is one, or it or one of its next `s - 1` squares is minus one. -/
def PassesAt (n a d s : Nat) : Prop :=
  (a : ZMod n) ^ d = 1 ∨ ∃ r < s, (a : ZMod n) ^ (d * 2 ^ r) = -1

/-- A strong probable prime to the base `a`. -/
def StrongProbablePrime (n a : Nat) : Prop :=
  ∃ d s, Odd d ∧ n - 1 = d * 2 ^ s ∧ PassesAt n a d s

/-- The orders of `a` modulo the prime factors of `n` are divisible by two equally often. -/
def SameTwoPart (n a : Nat) : Prop :=
  ∀ q r : Nat, q.Prime → r.Prime → q ∣ n → r ∣ n → twoPart (a : ZMod q) = twoPart (a : ZMod r)

section

variable {n a d s : Nat}

theorem natCast_pow_eq_one_of_dvd {q k : Nat} (hqn : q ∣ n) (h : (a : ZMod n) ^ k = 1) :
    (a : ZMod q) ^ k = 1 := by
  have hcast := congrArg (ZMod.castHom hqn (ZMod q)) h
  rwa [map_pow, map_natCast, map_one] at hcast

/-- The square that is minus one tells the power of two in the order. -/
theorem twoPart_of_pow_eq_neg_one {q : Nat} [Fact (2 < q)] {x : ZMod q} {r : Nat} (hd : Odd d)
    (h : x ^ (d * 2 ^ r) = -1) : twoPart x = r + 1 := by
  have hnext : x ^ (d * 2 ^ (r + 1)) = 1 := by
    rw [pow_succ, ← mul_assoc, pow_mul, h, neg_one_sq]
  have hle := (pow_eq_one_iff_twoPart_le hd hnext (r + 1)).mp hnext
  have hlt : ¬ twoPart x ≤ r := by
    rw [← pow_eq_one_iff_twoPart_le hd hnext, h]
    exact ZMod.neg_one_ne_one
  omega

theorem PassesAt.pow_eq_one (hds : n - 1 = d * 2 ^ s) (h : PassesAt n a d s) :
    (a : ZMod n) ^ (n - 1) = 1 := by
  rw [hds]
  rcases h with h | ⟨r, hr, h⟩
  · rw [pow_mul, h, one_pow]
  · obtain ⟨t, rfl⟩ := Nat.exists_eq_add_of_lt hr
    have hsplit : d * 2 ^ (r + t + 1) = d * 2 ^ r * 2 * 2 ^ t := by ring
    rw [hsplit, pow_mul, pow_mul, h, neg_one_sq, one_pow]

theorem PassesAt.sameTwoPart (hn : Odd n) (hd : Odd d) (h : PassesAt n a d s) : SameTwoPart n a := by
  rcases h with h | ⟨r, -, h⟩
  · have hzero : ∀ q : Nat, q ∣ n → twoPart (a : ZMod q) = 0 := by
      intro q hqn
      have hq : (a : ZMod q) ^ (d * 2 ^ 0) = 1 := by
        rw [pow_zero, mul_one]
        exact natCast_pow_eq_one_of_dvd hqn h
      exact Nat.le_zero.mp ((pow_eq_one_iff_twoPart_le hd hq 0).mp hq)
    intro q q' _ _ hqn hqn'
    rw [hzero q hqn, hzero q' hqn']
  · have hsucc : ∀ q : Nat, q.Prime → q ∣ n → twoPart (a : ZMod q) = r + 1 := by
      intro q hq hqn
      have : Fact (2 < q) := ⟨two_lt_of_prime_dvd hn hq hqn⟩
      have hcast := congrArg (ZMod.castHom hqn (ZMod q)) h
      rw [map_pow, map_natCast, map_neg, map_one] at hcast
      exact twoPart_of_pow_eq_neg_one hd hcast
    intro q q' hq hq' hqn hqn'
    rw [hsucc q hq hqn, hsucc q' hq' hqn']

/-- The number of squarings is the power of two in the orders, and modulo each prime factor the one
before is minus one. -/
theorem passesAt_of_sameTwoPart (hn : Odd n) (hone : 1 < n) (hd : Odd d) (hds : n - 1 = d * 2 ^ s)
    (hfermat : (a : ZMod n) ^ (n - 1) = 1) (hsame : SameTwoPart n a) : PassesAt n a d s := by
  rw [hds] at hfermat
  obtain ⟨p, hp, hpn⟩ := Nat.exists_prime_and_dvd hone.ne'
  have hiff : ∀ q : Nat, q.Prime → q ∣ n → ∀ r,
      (a : ZMod q) ^ (d * 2 ^ r) = 1 ↔ twoPart (a : ZMod p) ≤ r := by
    intro q hq hqn r
    rw [hsame p q hp hq hpn hqn]
    exact pow_eq_one_iff_twoPart_le hd (natCast_pow_eq_one_of_dvd hqn hfermat) r
  have hle : twoPart (a : ZMod p) ≤ s :=
    (hiff p hp hpn s).mp (natCast_pow_eq_one_of_dvd hpn hfermat)
  have hpow : (a : ZMod n) ^ (d * 2 ^ twoPart (a : ZMod p)) = 1 := by
    have h := pow_eq_one_of_forall_prime hn (y := (a : Int) ^ d) hle
    simp only [Int.cast_pow, Int.cast_natCast, ← pow_mul] at h
    exact h hfermat fun q hq hqn => (hiff q hq hqn _).mpr le_rfl
  cases hk : twoPart (a : ZMod p) with
  | zero =>
      left
      rwa [hk, pow_zero, mul_one] at hpow
  | succ r =>
      rw [hk] at hle hpow hiff
      refine .inr ⟨r, hle, ?_⟩
      -- the square before the first that is one is a root of one other than one
      have hsquare : ∀ m : Nat,
          ((a : ZMod m) ^ (d * 2 ^ r)) ^ 2 = (a : ZMod m) ^ (d * 2 ^ (r + 1)) := by
        intro m
        rw [← pow_mul, mul_assoc, ← pow_succ]
      have hroot := eq_neg_one_of_forall_prime hn (z := (a : Int) ^ (d * 2 ^ r))
      simp only [Int.cast_pow, Int.cast_natCast] at hroot
      refine hroot ((hsquare n).trans hpow) fun q hq hqn => ?_
      have : Fact q.Prime := ⟨hq⟩
      have hne : (a : ZMod q) ^ (d * 2 ^ r) ≠ 1 := by
        rw [Ne, hiff q hq hqn]
        omega
      have hsq : ((a : ZMod q) ^ (d * 2 ^ r)) ^ 2 = 1 :=
        (hsquare q).trans ((hiff q hq hqn _).mpr le_rfl)
      exact (sq_eq_one_iff.mp hsq).resolve_left hne

/-- **Strong probable primes by orders.** An odd number passes for a base exactly when Fermat's
congruence holds and the orders modulo its prime factors have one power of two. -/
theorem passesAt_iff (hn : Odd n) (hone : 1 < n) (hd : Odd d) (hds : n - 1 = d * 2 ^ s) :
    PassesAt n a d s ↔ (a : ZMod n) ^ (n - 1) = 1 ∧ SameTwoPart n a :=
  ⟨fun h => ⟨h.pow_eq_one hds, h.sameTwoPart hn hd⟩,
    fun h => passesAt_of_sameTwoPart hn hone hd hds h.1 h.2⟩

theorem StrongProbablePrime.pow_eq_one (h : StrongProbablePrime n a) :
    (a : ZMod n) ^ (n - 1) = 1 := by
  obtain ⟨d, s, -, hds, hpasses⟩ := h
  exact hpasses.pow_eq_one hds

theorem strongProbablePrime_iff_passesAt (hn : Odd n) (hone : 1 < n) (hd : Odd d)
    (hds : n - 1 = d * 2 ^ s) : StrongProbablePrime n a ↔ PassesAt n a d s := by
  refine ⟨?_, fun h => ⟨d, s, hd, hds, h⟩⟩
  rintro ⟨d', s', hd', hds', h⟩
  rw [passesAt_iff hn hone hd' hds'] at h
  rwa [passesAt_iff hn hone hd hds]

theorem strongProbablePrime_iff (hn : Odd n) (hone : 1 < n) :
    StrongProbablePrime n a ↔ (a : ZMod n) ^ (n - 1) = 1 ∧ SameTwoPart n a := by
  obtain ⟨s, d, hd, hds⟩ := Nat.exists_eq_two_pow_mul_odd (show n - 1 ≠ 0 by omega)
  rw [mul_comm] at hds
  rw [strongProbablePrime_iff_passesAt hn hone hd hds, passesAt_iff hn hone hd hds]

/-- A prime has one prime factor, and Fermat's congruence holds. -/
theorem strongProbablePrime_of_prime {p : Nat} (hp : p.Prime) (hodd : Odd p) (ha : ¬ p ∣ a) :
    StrongProbablePrime p a := by
  have : Fact p.Prime := ⟨hp⟩
  rw [strongProbablePrime_iff hodd hp.one_lt]
  constructor
  · exact ZMod.pow_card_sub_one_eq_one fun h => ha ((ZMod.natCast_eq_zero_iff a p).mp h)
  · intro q r hq hr hqp hrp
    rw [(Nat.prime_dvd_prime_iff_eq hq hp).mp hqp, (Nat.prime_dvd_prime_iff_eq hr hp).mp hrp]

/-- A base has no factor in common with a number that passes for it. -/
theorem coprime_of_pow_eq_one (hone : 1 < n) (h : (a : ZMod n) ^ (n - 1) = 1) : a.Coprime n := by
  rw [← ZMod.isUnit_iff_coprime]
  exact IsUnit.of_pow_eq_one h (by omega)

end

/-! ## The loops -/

/-- The loop ends at an odd number, provided the fuel covers the binary digits. -/
theorem oddPart_spec (fuel d s : Nat) (hd : 0 < d) (hfuel : d < 2 ^ (fuel + 1)) :
    Odd (oddPart fuel d s).1 ∧ (oddPart fuel d s).1 * 2 ^ (oddPart fuel d s).2 = d * 2 ^ s := by
  induction fuel generalizing d s with
  | zero =>
      have hone : d = 1 := by
        rw [zero_add, pow_one] at hfuel
        omega
      rw [oddPart, hone]
      exact ⟨odd_one, rfl⟩
  | succ fuel ih =>
      rw [oddPart]
      by_cases heven : d % 2 = 0
      · rw [if_pos heven]
        have hhalf : d / 2 < 2 ^ (fuel + 1) := by
          rw [pow_succ] at hfuel
          omega
        obtain ⟨hodd, hprod⟩ := ih (d / 2) (s + 1) (by omega) hhalf
        refine ⟨hodd, hprod.trans ?_⟩
        have hd2 : d / 2 * 2 = d := Nat.div_mul_cancel (Nat.dvd_of_mod_eq_zero heven)
        rw [pow_succ, mul_comm (2 ^ s), ← mul_assoc, hd2]
      · rw [if_neg heven]
        exact ⟨Nat.odd_iff.mpr (by omega), rfl⟩

section

variable {n : Nat} (hone : 1 < n)
include hone

theorem eq_pred_iff_natCast {y : Nat} (hy : y < n) : y = n - 1 ↔ (y : ZMod n) = -1 := by
  have hpred : ((n - 1 : Nat) : ZMod n) = -1 := by
    rw [Nat.cast_sub hone.le, ZMod.natCast_self, Nat.cast_one, zero_sub]
  rw [← hpred, ZMod.natCast_eq_natCast_iff', Nat.mod_eq_of_lt hy, Nat.mod_eq_of_lt (by omega)]

theorem reachesMinusOne_iff (count x : Nat) :
    reachesMinusOne n count x = true ↔ ∃ r < count, (x : ZMod n) ^ 2 ^ (r + 1) = -1 := by
  induction count generalizing x with
  | zero => simp [reachesMinusOne]
  | succ count ih =>
      have hsquare : ((x * x % n : Nat) : ZMod n) = (x : ZMod n) ^ 2 := by
        rw [ZMod.natCast_mod, Nat.cast_mul, sq]
      rw [reachesMinusOne, Bool.or_eq_true, beq_iff_eq,
        eq_pred_iff_natCast hone (Nat.mod_lt _ (by omega)), ih, hsquare, Nat.exists_lt_succ_left]
      simp only [← pow_mul, ← pow_succ', zero_add, pow_one]

/-- The test to a base is the condition on its powers. -/
theorem isStrongTo_iff {d s a : Nat} (hs : 0 < s) :
    isStrongTo n d s a = true ↔ PassesAt n a d s := by
  have hlt : powMod a d n < n := by
    rw [powMod_eq]
    exact Nat.mod_lt _ (by omega)
  obtain ⟨s, rfl⟩ := Nat.exists_eq_succ_of_ne_zero hs.ne'
  simp only [isStrongTo, Bool.or_eq_true, beq_iff_eq]
  rw [← natCast_pow_eq_one_iff hone, eq_pred_iff_natCast hone hlt, reachesMinusOne_iff hone,
    natCast_powMod, PassesAt, Nat.exists_lt_succ_left, or_assoc]
  -- the power itself, which is looked at before the loop, is the square of number zero
  simp only [← pow_mul, pow_zero, mul_one, Nat.succ_eq_add_one, Nat.add_sub_cancel]

end

/-! ## Pseudoprimes -/

/-- A composite number that passes for every base. -/
structure IsPseudoprime (n : Nat) : Prop where
  one_lt : 1 < n
  not_prime : ¬ n.Prime
  strong : ∀ a ∈ bases, StrongProbablePrime n a

theorem prime_of_mem_bases : ∀ a ∈ bases, a.Prime := by
  simp only [bases, List.forall_mem_cons, List.not_mem_nil]
  norm_num

theorem odd_of_forall_not_dvd {n : Nat} (h : ∀ a ∈ bases, ¬ a ∣ n) : Odd n := by
  rw [← Nat.not_even_iff_odd, even_iff_two_dvd]
  exact h 2 (by decide)

/-- Passing for a base leaves no factor in common with it. -/
theorem not_dvd_of_forall_pow {n : Nat} (hone : 1 < n)
    (h : ∀ a ∈ bases, (a : ZMod n) ^ (n - 1) = 1) : ∀ a ∈ bases, ¬ a ∣ n := by
  intro a ha hdvd
  have hcop := coprime_of_pow_eq_one hone (h a ha)
  exact (prime_of_mem_bases a ha).one_lt.ne' (hcop.eq_one_of_dvd hdvd)

/-- A composite number passes for every base exactly if Fermat's congruence holds for all of them and
the orders of each modulo the prime factors have one power of two. -/
theorem isPseudoprime_iff {n : Nat} :
    IsPseudoprime n ↔ 1 < n ∧ ¬ n.Prime ∧
      ∀ a ∈ bases, (a : ZMod n) ^ (n - 1) = 1 ∧ SameTwoPart n a := by
  constructor
  · rintro ⟨hone, hprime, hstrong⟩
    have hodd := odd_of_forall_not_dvd
      (not_dvd_of_forall_pow hone fun a ha => (hstrong a ha).pow_eq_one)
    exact ⟨hone, hprime, fun a ha => (strongProbablePrime_iff hodd hone).mp (hstrong a ha)⟩
  · rintro ⟨hone, hprime, h⟩
    have hodd := odd_of_forall_not_dvd (not_dvd_of_forall_pow hone fun a ha => (h a ha).1)
    exact ⟨hone, hprime, fun a ha => (strongProbablePrime_iff hodd hone).mpr (h a ha)⟩

/-! ## The test -/

/-- A multiple of a base is accepted if it is the base. -/
theorem test_of_dvd {n a : Nat} (hone : 1 < n) (ha : a ∈ bases) (hdvd : a ∣ n) :
    test n = true ↔ n.Prime := by
  have hsome : (bases.find? fun q => n % q == 0).isSome := by
    rw [List.find?_isSome]
    exact ⟨a, ha, by rw [beq_iff_eq]; exact Nat.mod_eq_zero_of_dvd hdvd⟩
  obtain ⟨q, hq⟩ := Option.isSome_iff_exists.mp hsome
  have hprime := prime_of_mem_bases q (List.mem_of_find?_eq_some hq)
  have hqn : q ∣ n := by
    have hmod := List.find?_some hq
    rw [beq_iff_eq] at hmod
    exact Nat.dvd_of_mod_eq_zero hmod
  rw [test, if_neg (by omega), hq]
  simp only [beq_iff_eq]
  refine ⟨fun h => h ▸ hprime, fun h => ?_⟩
  exact ((Nat.prime_dvd_prime_iff_eq hprime h).mp hqn).symm

/-- Any other number is accepted if it passes for every base. -/
theorem test_of_forall_not_dvd {n : Nat} (hone : 1 < n) (h : ∀ a ∈ bases, ¬ a ∣ n) :
    test n = true ↔ ∀ a ∈ bases, StrongProbablePrime n a := by
  have hodd := odd_of_forall_not_dvd h
  have hnone : (bases.find? fun q => n % q == 0) = none := by
    rw [List.find?_eq_none]
    intro a ha hmod
    rw [beq_iff_eq] at hmod
    exact h a ha (Nat.dvd_of_mod_eq_zero hmod)
  obtain ⟨hd, hds⟩ := oddPart_spec n.log2 (n - 1) 0 (by omega)
    (lt_of_le_of_lt (Nat.sub_le n 1) Nat.lt_log2_self)
  rw [pow_zero, mul_one] at hds
  -- an odd number has an even predecessor, so that there is a square to look at
  have hs : 0 < (oddPart n.log2 (n - 1) 0).2 := by
    rw [Nat.pos_iff_ne_zero]
    intro h0
    rw [h0, pow_zero, mul_one] at hds
    rw [hds] at hd
    exact Nat.not_odd_iff_even.mpr (Nat.Odd.sub_odd hodd odd_one) hd
  have htest : test n = bases.all
      (isStrongTo n (oddPart n.log2 (n - 1) 0).1 (oddPart n.log2 (n - 1) 0).2) := by
    rw [test, if_neg (by omega), hnone]
  rw [htest, List.all_eq_true]
  refine forall₂_congr fun a _ => ?_
  rw [isStrongTo_iff hone hs, strongProbablePrime_iff_passesAt hodd hone hd hds.symm]

/-- The numbers that are taken for primes: the primes and the pseudoprimes. -/
theorem test_eq_true_iff (n : Nat) : test n = true ↔ n.Prime ∨ IsPseudoprime n := by
  by_cases hone : 1 < n
  · by_cases hdvd : ∃ a ∈ bases, a ∣ n
    · obtain ⟨a, ha, hdvd⟩ := hdvd
      rw [test_of_dvd hone ha hdvd, or_iff_left]
      intro h
      exact not_dvd_of_forall_pow hone (fun a ha => (h.strong a ha).pow_eq_one) a ha hdvd
    · have hnot : ∀ a ∈ bases, ¬ a ∣ n := fun a ha h => hdvd ⟨a, ha, h⟩
      rw [test_of_forall_not_dvd hone hnot]
      by_cases hprime : n.Prime
      · simp only [hprime, true_or, iff_true]
        intro a ha
        refine strongProbablePrime_of_prime hprime (odd_of_forall_not_dvd hnot) fun hna => ?_
        exact hnot a ha
          ((Nat.prime_dvd_prime_iff_eq hprime (prime_of_mem_bases a ha)).mp hna ▸ dvd_rfl)
      · exact ⟨fun h => .inr ⟨hone, hprime, h⟩, fun h => (h.resolve_left hprime).strong⟩
  · rw [test, if_pos (by omega)]
    simp only [Bool.false_eq_true, false_iff, not_or]
    exact ⟨fun h => hone h.one_lt, fun h => hone h.one_lt⟩

/-- A product of two factors, one of them nearly twice the other, that no base tells from a prime. -/
theorem isPseudoprime_product : IsPseudoprime 318665857834031151167461 := by
  have hnot : ¬ Nat.Prime 318665857834031151167461 :=
    Nat.not_prime_of_mul_eq (show 399165290221 * 798330580441 = 318665857834031151167461 by norm_num)
      (by norm_num) (by norm_num)
  have htest : test 318665857834031151167461 = true := by decide +kernel
  exact ((test_eq_true_iff _).mp htest).resolve_left hnot

end Primality

/-! ## Moduli of fields -/

namespace PrimeField

open Primality

/-- The moduli of which a field is made. -/
theorem ofModulus?_eq_some_iff {z : Int} {n : Nat} :
    ofModulus? z = some ⟨n⟩ ↔ z = n ∧ (n.Prime ∨ IsPseudoprime n) := by
  rw [ofModulus?, Option.ite_none_right_eq_some, Option.some.injEq, PrimeField.mk.injEq]
  constructor
  · rintro ⟨⟨hz, htest⟩, rfl⟩
    exact ⟨(Int.toNat_of_nonneg hz).symm, (test_eq_true_iff _).mp htest⟩
  · rintro ⟨rfl, h⟩
    exact ⟨⟨Int.natCast_nonneg n, (test_eq_true_iff n).mpr h⟩, Int.toNat_natCast n⟩

/-- **No prime is rejected.** -/
theorem prime_accepted {p : Nat} (hp : p.Prime) :
    Primality.test p = true ∧ ofModulus? p = some ⟨p⟩ :=
  ⟨(test_eq_true_iff p).mpr (.inl hp), ofModulus?_eq_some_iff.mpr ⟨rfl, .inl hp⟩⟩

/-- The largest base, which is its own divisor, and the scalar modulus, which has to pass for all. -/
theorem prime_accepted_base_and_scalar :
    (Nat.Prime 37 ∧ Primality.test 37 = true ∧ ofModulus? 37 = some ⟨37⟩) ∧
      scalarModulus.Prime ∧ Primality.test scalarModulus = true ∧
        ofModulus? scalarModulus = some scalar := by
  have hbase : Nat.Prime 37 := by norm_num
  exact ⟨⟨hbase, prime_accepted hbase⟩, scalarModulus_prime, prime_accepted scalarModulus_prime⟩

/-- **What is accepted for a prime.** The test accepts the primes and the pseudoprimes, and a field is
made of these; it is right on all numbers but the pseudoprimes.  They are the composite numbers for
which Fermat's congruence holds to all bases and the orders of each base modulo the prime factors
have one power of two. -/
theorem test_exact_iff_not_pseudoprime (n : Nat) :
    (Primality.test n = true ↔ n.Prime ∨ IsPseudoprime n) ∧
      ((Primality.test n = true ↔ n.Prime) ↔ ¬ IsPseudoprime n) ∧
      (∀ z : Int, ofModulus? z = some ⟨n⟩ ↔ z = n ∧ (n.Prime ∨ IsPseudoprime n)) ∧
      (IsPseudoprime n ↔ 1 < n ∧ ¬ n.Prime ∧
        ∀ a ∈ bases, (a : ZMod n) ^ (n - 1) = 1 ∧ SameTwoPart n a) := by
  refine ⟨test_eq_true_iff n, ?_, fun z => ofModulus?_eq_some_iff, isPseudoprime_iff⟩
  rw [test_eq_true_iff, or_iff_left_iff_imp]
  exact ⟨fun h hpseudo => hpseudo.not_prime (h hpseudo), fun h hpseudo => absurd hpseudo h⟩

/-- There is a pseudoprime below 3.3e24. -/
theorem test_exact_iff_not_pseudoprime_product :
    318665857834031151167461 < 33 * 10 ^ 23 ∧ ¬ Nat.Prime 318665857834031151167461 ∧
      ¬ (Primality.test 318665857834031151167461 = true ↔
        Nat.Prime 318665857834031151167461) ∧
      ofModulus? 318665857834031151167461 = some ⟨318665857834031151167461⟩ := by
  obtain ⟨-, hexact, hfield, -⟩ := test_exact_iff_not_pseudoprime 318665857834031151167461
  exact ⟨by norm_num, isPseudoprime_product.not_prime,
    fun h => hexact.mp h isPseudoprime_product, (hfield _).mpr ⟨rfl, .inr isPseudoprime_product⟩⟩

end PrimeField

end ArrowCircuit
