import ArrowCircuit.Proofs.Poly.Algebra

/-!
# Long division

By a list of coefficients that ends in one (`EndsInOne`) long division is the division of polynomials
by a monic one: the loop keeps `p = q * divisor + r` from the highest coefficient down, and no other
remainder is as short.  So quotient and remainder are determined, and a multiple of the divisor gives
back its factor (`divMod?_exact`).
-/

namespace ArrowCircuit.Poly

open Polynomial

/-! ## Divisors -/

/-- A list of `degree + 1` coefficients that ends in one. -/
structure EndsInOne (degree : Nat) (divisor : Poly) : Prop where
  length_eq : divisor.length = degree + 1
  coeff_eq : (toPolynomial divisor).coeff degree = 1

namespace EndsInOne

variable {degree : Nat} {divisor : Poly}

theorem toPolynomial_eq (h : EndsInOne degree divisor) :
    toPolynomial divisor = toPolynomial (divisor.take degree) + X ^ degree := by
  have hlast : ((divisor.getD degree 0 : Int) : ZMod scalarModulus) = 1 := by
    rw [← coeff_toPolynomial, h.coeff_eq]
  have hlt : degree < divisor.length := by
    rw [h.length_eq]
    exact Nat.lt_succ_self degree
  have hsplit : divisor = divisor.take degree ++ [divisor.getD degree 0] := by
    rw [List.getD_eq_getElem _ _ hlt, List.take_append_getElem hlt,
      List.take_of_length_le h.length_eq.le]
  conv_lhs => rw [hsplit, toPolynomial_append, List.length_take_of_le hlt.le]
  rw [toPolynomial_cons, toPolynomial_nil, mul_zero, add_zero, hlast, C_1, mul_one]

theorem degree_eq (h : EndsInOne degree divisor) : (toPolynomial divisor).degree = degree := by
  refine le_antisymm ?_ (le_degree_of_ne_zero (by rw [h.coeff_eq]; exact one_ne_zero))
  have hlt := degree_toPolynomial_lt divisor
  rw [h.length_eq] at hlt
  exact Order.lt_succ_iff.mp (by exact_mod_cast hlt)

theorem monic (h : EndsInOne degree divisor) : (toPolynomial divisor).Monic := by
  rw [Monic, leadingCoeff, natDegree_eq_of_degree_eq_some h.degree_eq, h.coeff_eq]

end EndsInOne

/-! ## The loop -/

/-- One step of long division: the window less a multiple of the divisor is one shorter. -/
theorem toPolynomial_window {degree : Nat} {divisor window : Poly} (h : EndsInOne degree divisor)
    (hlen : window.length = degree + 1) :
    toPolynomial window = C ((window.getLastD 0 : Int) : ZMod scalarModulus) * toPolynomial divisor +
      toPolynomial (subScaled (window.getLastD 0) (window.take degree) divisor) := by
  have hne : window ≠ [] := by
    rintro rfl
    exact absurd hlen (by simp)
  have htake : (window.take degree).length = degree := by
    rw [List.length_take, hlen, Nat.min_eq_left (Nat.le_succ degree)]
  have hsplit : window = window.take degree ++ [window.getLastD 0] := by
    have hdrop : window.dropLast = window.take degree := by
      rw [List.dropLast_eq_take, hlen, Nat.add_sub_cancel]
    rw [List.getLastD_eq_getLast?, List.getLast?_eq_some_getLast hne, Option.getD_some, ← hdrop,
      List.dropLast_append_getLast hne]
  -- the last coefficient of the divisor is never looked at, since it cancels
  rw [subScaled_take, htake, toPolynomial_subScaled _ (by
    rw [htake, List.length_take, h.length_eq]
    omega), h.toPolynomial_eq]
  conv_lhs => rw [hsplit, toPolynomial_append, htake]
  simp only [toPolynomial_cons, toPolynomial_nil]
  ring

/-- Long division keeps `p = q * divisor + r` from the highest coefficient down; the remainder is as
long as what has been read until it has `degree` coefficients. -/
theorem divLoop_spec {degree : Nat} {divisor : Poly} (h : EndsInOne degree divisor) (p : Poly) :
    toPolynomial p = toPolynomial (divLoop degree divisor p).1 * toPolynomial divisor +
        toPolynomial (divLoop degree divisor p).2 ∧
      (divLoop degree divisor p).1.length = p.length - degree ∧
      (divLoop degree divisor p).2.length = min p.length degree := by
  induction p with
  | nil => simp [divLoop]
  | cons c p ih =>
      obtain ⟨heq, hquotient, hrest⟩ := ih
      rw [divLoop]
      generalize divLoop degree divisor p = result at heq hquotient hrest
      obtain ⟨quotient, rest⟩ := result
      simp only at heq hquotient hrest ⊢
      split
      · -- fewer coefficients than the divisor has: all of them are remainder
        next hle =>
          rw [List.length_cons] at hle
          have hnil : quotient = [] := List.eq_nil_of_length_eq_zero (by omega)
          rw [hnil, toPolynomial_nil, zero_mul, zero_add] at heq
          rw [hnil]
          refine ⟨?_, ?_, ?_⟩
          · rw [toPolynomial_cons, toPolynomial_cons, intCast_reduce, heq, toPolynomial_nil, zero_mul,
              zero_add]
          · rw [List.length_nil, List.length_cons]
            omega
          · rw [List.length_cons, List.length_cons]
            omega
      · -- the window is full, and its last coefficient goes to the quotient
        next hgt =>
          rw [List.length_cons] at hgt
          have hlen : (reduce c :: rest).length = degree + 1 := by
            rw [List.length_cons]
            omega
          have hwindow := toPolynomial_window h hlen
          rw [toPolynomial_cons, intCast_reduce] at hwindow
          refine ⟨?_, ?_, ?_⟩
          · rw [toPolynomial_cons, toPolynomial_cons, heq]
            linear_combination hwindow
          · rw [List.length_cons, List.length_cons]
            omega
          · rw [length_subScaled, List.length_take, hlen, List.length_cons]
            omega

theorem reduced_divLoop (degree : Nat) (divisor p : Poly) :
    Reduced (divLoop degree divisor p).1 ∧ Reduced (divLoop degree divisor p).2 := by
  induction p with
  | nil => exact ⟨reduced_nil, reduced_nil⟩
  | cons c p ih =>
      obtain ⟨hquotient, hrest⟩ := ih
      rw [divLoop]
      generalize divLoop degree divisor p = result at hquotient hrest
      obtain ⟨quotient, rest⟩ := result
      have hwindow : Reduced (reduce c :: rest) := reduced_cons.mpr ⟨canonical_reduce c, hrest⟩
      simp only
      split
      · exact ⟨hquotient, hwindow⟩
      · exact ⟨reduced_cons.mpr ⟨hwindow.getLastD, hquotient⟩, reduced_subScaled _ _ _⟩

theorem reduced_divMod? {p divisor q r : Poly} (h : divMod? p divisor = some (q, r)) :
    Reduced q ∧ Reduced r := by
  unfold divMod? at h
  split at h
  · obtain ⟨top, -, heq⟩ := Option.map_eq_some_iff.mp h
    cases heq
    exact ⟨reduced_cons.mpr ⟨canonical_reduce top, reduced_map_reduce p⟩, reduced_map_reduce _⟩
  · rename_i d tail
    split at h
    · cases h
      exact ⟨reduced_cons.mpr ⟨canonical_zero, reduced_nil⟩, reduced_map_reduce p⟩
    · have hloop := reduced_divLoop tail.length (d :: tail) p
      rw [Option.some.inj h] at hloop
      exact hloop

/-! ## Quotient and remainder -/

section Division

variable {degree : Nat} {divisor : Poly}

/-- Quotient and remainder, with their lengths. -/
theorem divMod?_spec (h : EndsInOne degree divisor) (p : Poly) :
    ∃ q r, divMod? p divisor = some (q, r) ∧
      toPolynomial p = toPolynomial q * toPolynomial divisor + toPolynomial r ∧
      q.length = max 1 (p.length - degree) ∧ r.length = min p.length degree := by
  obtain ⟨d, tail, rfl⟩ : ∃ d tail, divisor = d :: tail :=
    List.exists_cons_of_ne_nil (List.ne_nil_of_length_eq_add_one h.length_eq)
  have htail : tail.length = degree := by simpa using h.length_eq
  rw [divMod?, htail]
  split
  · next hle =>
      -- a short dividend is its own remainder
      refine ⟨[0], p.map reduce, rfl, by simp, ?_, ?_⟩
      · rw [List.length_singleton]
        omega
      · rw [List.length_map]
        omega
  · next hgt =>
      obtain ⟨heq, hquotient, hrest⟩ := divLoop_spec h p
      refine ⟨_, _, rfl, heq, ?_, hrest⟩
      rw [hquotient]
      omega

/-- No other quotient has so short a remainder. -/
theorem EndsInOne.div_mod_unique (h : EndsInOne degree divisor) {p q r : (ZMod scalarModulus)[X]}
    (heq : p = q * toPolynomial divisor + r) (hr : r.degree < (degree : WithBot ℕ)) :
    q = p /ₘ toPolynomial divisor ∧ r = p %ₘ toPolynomial divisor := by
  have hsum : r + toPolynomial divisor * q = p := by
    rw [heq]
    ring
  have hlt : r.degree < (toPolynomial divisor).degree := by rwa [h.degree_eq]
  obtain ⟨hq, hr⟩ := div_modByMonic_unique q r h.monic ⟨hsum, hlt⟩
  exact ⟨hq.symm, hr.symm⟩

theorem degree_toPolynomial_lt_of_length_le {p : Poly} (h : p.length ≤ degree) :
    (toPolynomial p).degree < (degree : WithBot ℕ) :=
  (degree_toPolynomial_lt p).trans_le (by exact_mod_cast h)

/-- **Division.** By a list that ends in one, quotient and remainder are those of polynomials. -/
theorem divMod?_eq (h : EndsInOne degree divisor) (p : Poly) :
    ∃ q r, divMod? p divisor = some (q, r) ∧
      toPolynomial q = toPolynomial p /ₘ toPolynomial divisor ∧
      toPolynomial r = toPolynomial p %ₘ toPolynomial divisor ∧
      q.length = max 1 (p.length - degree) := by
  obtain ⟨q, r, hdiv, heq, hq, hr⟩ := divMod?_spec h p
  have hshort : r.length ≤ degree := by
    rw [hr]
    exact min_le_right _ _
  obtain ⟨hquotient, hremainder⟩ :=
    h.div_mod_unique heq (degree_toPolynomial_lt_of_length_le hshort)
  exact ⟨q, r, hdiv, hquotient, hremainder, hq⟩

/-- A multiple of the divisor gives back its factor, and zeros. -/
theorem divMod?_mul (h : EndsInOne degree divisor) (p : Poly) :
    divMod? (mul p divisor) divisor =
      some (if p = [] then [0] else p.map reduce, zeros degree) := by
  obtain ⟨q, r, hdiv, heq, hlenQ, hlenR⟩ := divMod?_spec h (mul p divisor)
  obtain ⟨hreducedQ, hreducedR⟩ := reduced_divMod? hdiv
  rw [length_mul, h.length_eq] at hlenQ hlenR
  -- the factor with the remainder zero divides the product as well, so that nothing else does
  obtain ⟨hquotient, hremainder⟩ := h.div_mod_unique heq
    (degree_toPolynomial_lt_of_length_le (by omega))
  obtain ⟨hfactor, hzero⟩ := h.div_mod_unique (r := 0)
    ((toPolynomial_mul p divisor).trans (add_zero _).symm)
    (by rw [degree_zero]; exact WithBot.bot_lt_coe degree)
  rw [← hfactor] at hquotient
  rw [← hzero] at hremainder
  have hr : r = zeros degree := by
    refine hreducedR.eq_of_toPolynomial_eq (reduced_zeros degree) ?_ ?_
    · rw [length_zeros]
      omega
    · rw [hremainder, toPolynomial_zeros]
  have hq : q = if p = [] then [0] else p.map reduce := by
    split
    · next hnil =>
        rw [hnil, List.length_nil] at hlenQ
        refine hreducedQ.eq_of_toPolynomial_eq (reduced_zeros 1) ?_ ?_
        · rw [List.length_singleton]
          omega
        · rw [hquotient, hnil, toPolynomial_nil]
          exact (toPolynomial_zeros 1).symm
    · next hne =>
        have hpos : 0 < p.length := List.length_pos_iff.mpr hne
        refine hreducedQ.eq_of_toPolynomial_eq (reduced_map_reduce p) ?_ ?_
        · rw [List.length_map]
          omega
        · rw [hquotient, toPolynomial_map_reduce]
  rw [hdiv, hq, hr]

end Division

theorem endsInOne_of_getLast {divisor : Poly} (hne : divisor ≠ [])
    (hlast : divisor.getLast hne ≡ 1 [ZMOD scalarModulus]) :
    EndsInOne (divisor.length - 1) divisor := by
  have hpos : 0 < divisor.length := List.length_pos_iff.mpr hne
  refine ⟨(Nat.sub_add_cancel hpos).symm, ?_⟩
  rw [coeff_toPolynomial, List.getD_eq_getElem _ _ (Nat.sub_one_lt_of_lt hpos),
    ← List.getLast_eq_getElem hne, (ZMod.intCast_eq_intCast_iff _ _ _).mpr hlast, Int.cast_one]

/-- **Exactness of division.** Whatever integers a dividend and a divisor hold, if the last of the
divisor is one in the field then there are a quotient and a remainder with reduced coefficients, the
remainder shorter than the divisor, that give back the dividend modulo the field's order; no other
quotient and remainder of so low a degree do.  A product with the divisor leaves zeros, and its
quotient is the other factor, with a zero for an empty one. -/
theorem divMod?_exact (p divisor : Poly) (hne : divisor ≠ [])
    (hlast : divisor.getLast hne ≡ 1 [ZMOD scalarModulus]) :
    (∃ q r, divMod? p divisor = some (q, r) ∧ Reduced q ∧ Reduced r ∧
      r.length ≤ divisor.length - 1 ∧
      toPolynomial p = toPolynomial q * toPolynomial divisor + toPolynomial r ∧
      ∀ q' r' : (ZMod scalarModulus)[X], r'.degree < ((divisor.length - 1 : ℕ) : WithBot ℕ) →
        toPolynomial p = q' * toPolynomial divisor + r' →
        q' = toPolynomial q ∧ r' = toPolynomial r) ∧
    ∀ factor : Poly, divMod? (mul factor divisor) divisor =
      some (if factor = [] then [0] else factor.map reduce, zeros (divisor.length - 1)) := by
  have h := endsInOne_of_getLast hne hlast
  refine ⟨?_, divMod?_mul h⟩
  obtain ⟨q, r, hdiv, heq, -, hr⟩ := divMod?_spec h p
  obtain ⟨hreducedQ, hreducedR⟩ := reduced_divMod? hdiv
  have hshort : r.length ≤ divisor.length - 1 := by
    rw [hr]
    exact min_le_right _ _
  refine ⟨q, r, hdiv, hreducedQ, hreducedR, hshort, heq, fun q' r' hdegree heq' => ?_⟩
  obtain ⟨hq, hr⟩ := h.div_mod_unique heq (degree_toPolynomial_lt_of_length_le hshort)
  obtain ⟨hq', hr'⟩ := h.div_mod_unique heq' hdegree
  exact ⟨hq'.trans hq.symm, hr'.trans hr.symm⟩

/-- A divisor `X² - 4 X + 3` whose last coefficient is not reduced, and a factor with a negative one. -/
theorem divMod?_exact_unreduced :
    divMod? (mul [-1, 0, 2] [3, -4, scalarModulus + 1]) [3, -4, scalarModulus + 1] =
        some ([(scalarModulus : Int) - 1, 0, 2], [0, 0]) ∧
      ∃ q r, divMod? [-5, 0, scalarModulus, 7] [3, -4, scalarModulus + 1] = some (q, r) ∧
        r.length ≤ 2 ∧ toPolynomial [-5, 0, scalarModulus, 7] =
          toPolynomial q * toPolynomial [3, -4, scalarModulus + 1] + toPolynomial r := by
  have hexact := fun p => divMod?_exact p [3, -4, scalarModulus + 1] (List.cons_ne_nil _ _) (by decide)
  obtain ⟨q, r, hdiv, -, -, hshort, heq, -⟩ := (hexact [-5, 0, scalarModulus, 7]).1
  exact ⟨(hexact []).2 [-1, 0, 2], q, r, hdiv, hshort, heq⟩

end ArrowCircuit.Poly
