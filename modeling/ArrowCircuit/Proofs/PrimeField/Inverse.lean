import ArrowCircuit.Proofs.PrimeField.Residue
import ArrowCircuit.Value.Arithmetic
import Mathlib.RingTheory.Int.Basic

/-!
# Inverses of residues

Euclid's loop comes to an end whatever its variables hold, and for a number that is coprime to the
modulus it leaves an inverse.  Modulo a prime that is every number but zero, so that division undoes
multiplication.
-/

namespace ArrowCircuit

namespace Element

/-! ## Runs of Euclid's loop -/

/-- A run of Euclid's loop from given values of its variables to its end, and the coefficient that it
leaves there. -/
inductive EuclidRun : (lm hm low high answer : Int) → Prop
  | done {lm hm low high : Int} (h : low ≤ 1) : EuclidRun lm hm low high lm
  | pass {lm hm low high answer : Int} (h : 1 < low)
      (rest : EuclidRun (hm - lm * high.fdiv low) lm (high - low * high.fdiv low) low answer) :
      EuclidRun lm hm low high answer

/-- Each pass replaces `low` by a remainder modulo `low`, so that the loop ends before as much fuel is
used up. -/
theorem euclidRun_euclid (fuel : Nat) (lm hm low high : Int) (hfuel : low ≤ fuel) :
    EuclidRun lm hm low high (euclid fuel lm hm low high) := by
  induction fuel generalizing lm hm low high with
  | zero => exact .done (by push_cast at hfuel; omega)
  | succ fuel ih =>
      rw [euclid]
      by_cases hlow : low > 1
      · rw [if_pos hlow]
        have hlt : high - low * high.fdiv low < low := by
          rw [← Int.fmod_def]
          exact Int.fmod_lt_of_pos _ (by omega)
        exact .pass hlow (ih _ _ _ _ (by push_cast at hfuel; omega))
      · rw [if_neg hlow]
        exact .done (by omega)

/-! ## Inverses of coprime numbers -/

/-- What is found for `a` modulo `m`: Euclid's loop comes to an end, and its answer reduced is an
inverse of `a`. -/
structure IsInverse (a m i : Int) : Prop where
  ends : ∃ x, EuclidRun 1 0 (a % m) m x ∧ i = x % m
  nonneg : 0 ≤ i
  lt : i < m
  mul_modEq : a * i ≡ 1 [ZMOD m]

/-- The inverse of the residue of `a` modulo `m` is found. -/
def Inverts (a m : Int) : Prop :=
  ∃ e i, ofInt a m = .ok e ∧ e.inv = .ok i ∧ i.modulus = m ∧ IsInverse a m i.value

theorem eq_of_value_of_modulus {e e' : Element} (hvalue : e.value = e'.value)
    (hmodulus : e.modulus = e'.modulus) : e = e' := by
  cases e
  cases e'
  simp only at hvalue hmodulus
  subst hvalue hmodulus
  rfl

theorem inv_eq_ok {e : Element} (h : e.value ≠ 0) :
    e.inv = .ok (e.reduce (euclid e.value.toNat 1 0 e.value e.modulus)) := by
  rw [inv, if_neg h]
  simp only [e.isReduced]

/-- Inversion is refused of zero alone, and for that reason. -/
theorem inv_eq_error_iff {a m : Int} {e : Element} (he : e.value = a % m) {fault : Fault} :
    e.inv = .error fault ↔ fault = .inverseOfZero ∧ a ≡ 0 [ZMOD m] := by
  have hzero : a ≡ 0 [ZMOD m] ↔ e.value = 0 := by
    rw [he, Int.modEq_zero_iff_dvd, Int.dvd_iff_emod_eq_zero]
  rw [hzero]
  by_cases h : e.value = 0
  · rw [inv, if_pos h, Except.error.injEq]
    simp only [h, and_true, eq_comm]
  · rw [inv_eq_ok h]
    simp only [h, and_false, reduceCtorEq]

theorem field_inv_eq {a m : Int} {e : Element} (hvalue : e.value = a % m) (hmodulus : e.modulus = m)
    {f : PrimeField} (hf : f.modulus = m) : f.inv a = e.inv.map Element.value := by
  have helement : f.element a = e := by
    refine eq_of_value_of_modulus ?_ (hf.trans hmodulus.symm)
    rw [hvalue, ← hf]
    rfl
  rw [PrimeField.inv, helement]
  cases e.inv <;> rfl

section

variable {m : Int} (hm : 2 ≤ m)
include hm

theorem value_reduce {e : Element} (he : e.modulus = m) (z : Int) : (e.reduce z).value = z % m := by
  show z.fmod e.modulus = z % m
  rw [he, Int.fmod_eq_emod_of_nonneg z (by omega)]

theorem value_mul {e : Element} (he : e.modulus = m) (z : Int) : (e.mul z).value = e.value * z % m :=
  value_reduce hm he _

theorem exists_ofInt (a : Int) : ∃ e, ofInt a m = .ok e ∧ e.value = a % m ∧ e.modulus = m := by
  rw [ofInt, if_neg (by omega)]
  exact ⟨_, rfl, Int.fmod_eq_emod_of_nonneg a (by omega), rfl⟩

theorem emod_ne_zero_of_gcd {a : Int} (hgcd : Int.gcd a m = 1) : a % m ≠ 0 := by
  intro h0
  rw [← Int.gcd_emod, h0, Int.gcd_zero_left] at hgcd
  omega

/-- What the loop leaves for a coprime number is an inverse. -/
theorem isInverse_euclid {a : Int} (hgcd : Int.gcd a m = 1) :
    IsInverse a m (euclid (a % m).toNat 1 0 (a % m) m % m) := by
  have hnonneg : 0 ≤ a % m := Int.emod_nonneg a (by omega)
  have hne : a % m ≠ 0 := emod_ne_zero_of_gcd hm hgcd
  refine ⟨⟨_, euclidRun_euclid _ _ _ _ _ (Int.self_le_toNat _), rfl⟩, Int.emod_nonneg _ (by omega),
    Int.emod_lt_of_pos _ (by omega), ?_⟩
  lift m to Nat using by omega
  have hmul := euclid_mul (a : ZMod m) (a % m).toNat 1 0 (a % m) m (by omega) (Int.self_le_toNat _)
    (by rw [Int.gcd_emod]; exact hgcd) (by simp) (by simp)
  rw [← ZMod.intCast_eq_intCast_iff, Int.cast_mul, ZMod.intCast_mod, Int.cast_one, mul_comm]
  exact hmul

theorem inverts_of_gcd {a : Int} (hgcd : Int.gcd a m = 1) : Inverts a m := by
  obtain ⟨e, he, hvalue, hmodulus⟩ := exists_ofInt hm a
  have hinv := inv_eq_ok (e := e) (by rw [hvalue]; exact emod_ne_zero_of_gcd hm hgcd)
  refine ⟨e, _, he, hinv, hmodulus, ?_⟩
  rw [value_reduce hm hmodulus, hvalue, hmodulus]
  exact isInverse_euclid hm hgcd

/-- Dividing by a number that has an inverse and multiplying by it again gives back the residue. -/
theorem exists_div_mul_eq {a : Int} (ha : Inverts a m) {x : Element} (hx : x.modulus = m) :
    ∃ q, x.div a = .ok q ∧ q.modulus = m ∧ q.mul a = x := by
  obtain ⟨e, i, he, hi, -, hinverse⟩ := ha
  have hdiv : x.div a = .ok (x.mul i.value) := by
    have hreduce : x.reduce a = e := by
      rw [ofInt, if_neg (by omega), Except.ok.injEq] at he
      rw [← he, reduce]
      simp only [hx]
    rw [div, hreduce, hi]
    rfl
  refine ⟨_, hdiv, hx, eq_of_value_of_modulus ?_ rfl⟩
  have hcancel : x.value * i.value % m * a ≡ x.value [ZMOD m] := by
    calc x.value * i.value % m * a
        ≡ x.value * i.value * a [ZMOD m] := (Int.mod_modEq _ _).mul_right a
      _ = x.value * (a * i.value) := by ring
      _ ≡ x.value * 1 [ZMOD m] := hinverse.mul_modEq.mul_left x.value
      _ = x.value := mul_one _
  have hreduced : x.value % m = x.value := by
    rw [← value_reduce hm hx]
    exact x.isReduced
  have hq : (x.mul i.value).modulus = m := hx
  rw [value_mul hm hq, value_mul hm hx, hcancel, hreduced]

end

end Element

theorem gcd_eq_one_of_prime {m a : Int} (hm : Prime m) (ha : ¬ a ≡ 0 [ZMOD m]) :
    Int.gcd a m = 1 := by
  have hdvd : ¬ m.natAbs ∣ a.natAbs := by
    rw [Int.natAbs_dvd_natAbs, ← Int.modEq_zero_iff_dvd]
    exact ha
  exact ((Int.prime_iff_natAbs_prime.mp hm).coprime_iff_not_dvd.mpr hdvd).symm

/-! ## Division -/

namespace Value

/-- What stands beside a residue is read with its modulus only. -/
theorem operand_of_modulus {x y : Element} (h : x.modulus = y.modulus) (v : Value) :
    operand x v = operand y v := by
  cases v <;> simp only [operand, h]

/-- Division by a value that has an inverse is undone by multiplication. -/
theorem exists_apply_div_mul {m a : Int} (hm : 2 ≤ m) (ha : Element.Inverts a m) {x : Element}
    (hx : x.modulus = m) {v : Value} (hv : operand x v = .ok a) :
    ∃ q, apply .div (.element x) v = .ok (.element q) ∧
      apply .mul (.element q) v = .ok (.element x) := by
  obtain ⟨q, hdiv, hq, hmul⟩ := Element.exists_div_mul_eq hm ha hx
  have hv' : operand q v = .ok a := by
    rw [operand_of_modulus (hq.trans hx.symm), hv]
  refine ⟨q, ?_, ?_⟩
  · simp only [apply, applyLeft, hv, hdiv, Except.mapError, bind, Except.bind, pure, Except.pure]
  · simp only [apply, applyLeft, hv', hmul, bind, Except.bind, pure, Except.pure]

end Value

namespace Element

/-- **Inverses.** Modulo `m` the inverse of every number that is coprime to `m` is found, by a loop
that comes to an end; inversion, also by the field of this modulus, fails on the multiples of `m` and
on nothing else.  If `m` is prime, every other number has its inverse found, and dividing a residue by
one and multiplying by it again gives back the residue. -/
theorem inverse_found {m : Int} (hm : 2 ≤ m) :
    (∀ a : Int, Int.gcd a m = 1 → Inverts a m) ∧
      (∀ a : Int, ∃ e, ofInt a m = .ok e ∧
        (∀ fault, e.inv = .error fault ↔ fault = .inverseOfZero ∧ a ≡ 0 [ZMOD m]) ∧
        ∀ f : PrimeField, f.modulus = m → f.inv a = e.inv.map value) ∧
      (Prime m → ∀ a : Int, ¬ a ≡ 0 [ZMOD m] → Inverts a m ∧
        ∀ (x : Element) (v : Value), x.modulus = m → Value.operand x v = .ok a →
          ∃ q, Value.apply .div (.element x) v = .ok (.element q) ∧
            Value.apply .mul (.element q) v = .ok (.element x)) := by
  refine ⟨fun a => inverts_of_gcd hm, fun a => ?_, fun hprime a ha => ?_⟩
  · obtain ⟨e, he, hvalue, hmodulus⟩ := exists_ofInt hm a
    exact ⟨e, he, fun fault => inv_eq_error_iff hvalue, fun f => field_inv_eq hvalue hmodulus⟩
  · have hinverts := inverts_of_gcd hm (gcd_eq_one_of_prime hprime ha)
    exact ⟨hinverts, fun x v hx hv => Value.exists_apply_div_mul hm hinverts hx hv⟩

/-- Five modulo twelve, and a quotient by a negative number in the scalar field. -/
theorem inverse_found_twelve_and_scalar :
    (Int.gcd 5 12 = 1 ∧ Inverts 5 12) ∧
      (2 ≤ (scalarModulus : Int) ∧ Prime (scalarModulus : Int) ∧ ¬ -4 ≡ 0 [ZMOD scalarModulus]) ∧
      ∃ q, Value.apply .div (.element ⟨7, scalarModulus, by decide⟩) (.int (-4)) =
          .ok (.element q) ∧
        Value.apply .mul (.element q) (.int (-4)) =
          .ok (.element ⟨7, scalarModulus, by decide⟩) := by
  have hgcd : Int.gcd 5 12 = 1 := by decide
  have htwo : 2 ≤ (scalarModulus : Int) := by decide
  have hprime : Prime (scalarModulus : Int) := Nat.prime_iff_prime_int.mp scalarModulus_prime
  have hfour : ¬ -4 ≡ 0 [ZMOD scalarModulus] := by decide
  exact ⟨⟨hgcd, (inverse_found (by decide)).1 5 hgcd⟩, ⟨htwo, hprime, hfour⟩,
    ((inverse_found htwo).2.2 hprime (-4) hfour).2 _ _ rfl rfl⟩

end Element

end ArrowCircuit
