import ArrowCircuit.Proofs.Lowering.Determinacy
import ArrowCircuit.Proofs.Witness.Layout

/-!
# Comparisons are exact

The equations of a comparison leave the difference and its bits open.  They can be filled in exactly
when the difference has a representative of as many bits, and then in one way.  In the field a negative
difference is a large number; as long as two numbers of that many bits, one added to the other, stay
below the modulus, a negative difference of such numbers is too large for the bits, so that the
equations say which side is greater.
-/

namespace ArrowCircuit.Lowering

open Schedule

/-- An assignment is completed to one that satisfies constraints, by new values for the indices from
one to another. -/
structure Completes {p : Nat} (constraints : List Constraint) (start stop : Nat)
    (w v : Nat → ZMod p) : Prop where
  outside : Set.EqOn v w (Set.Ico start stop)ᶜ
  holds : ∀ k ∈ constraints, k.Holds v

theorem Completes.eq_of_lt {p : Nat} {constraints : List Constraint} {start stop i : Nat}
    {w v : Nat → ZMod p} (h : Completes constraints start stop w v) (hi : i < start) : v i = w i :=
  h.outside fun hmem => absurd hmem.1 (Nat.not_le.mpr hi)

/-- Two completions that agree on the new values are the same. -/
theorem Completes.eq_of_eqOn {p : Nat} {constraints : List Constraint} {start stop : Nat}
    {w v v' : Nat → ZMod p} (h : Completes constraints start stop w v)
    (h' : Completes constraints start stop w v') (hon : Set.EqOn v v' (Set.Ico start stop)) :
    v = v' := by
  funext i
  by_cases hi : i ∈ Set.Ico start stop
  · exact hon hi
  · exact (h.outside hi).trans (h'.outside hi).symm

/-! ## Bits for a difference -/

theorem bitSum_congr {p : Nat} {w v : Nat → ZMod p} {bits : List Nat}
    (h : ∀ i ∈ bits, w i = v i) : bitSum w bits = bitSum v bits := by
  induction bits with
  | nil => rfl
  | cons i rest ih =>
      rw [bitSum, bitSum, h i List.mem_cons_self, ih fun j hj => h j (List.mem_cons_of_mem i hj)]

/-- A number of that many bits can be placed behind its index. -/
theorem exists_bits {p : Nat} [NeZero p] {bits : Nat} {d : ZMod p} (h : d.val < 2 ^ bits)
    (s : State) : ∃ u : Nat → ZMod p, u s.next = d ∧
      (∀ i ∈ List.range' (s.next + 1) bits, u i = 0 ∨ u i = 1) ∧
      d = bitSum u (List.range' (s.next + 1) bits) := by
  refine ⟨(withBits bits s default d).residue p, ?_, fun i hi => ?_, (bitSum_withBits h).symm⟩
  · rw [Assignment.residue_of_get? get?_withBits_next, Int.cast_natCast, ZMod.natCast_zmod_val]
  · obtain ⟨hle, hlt⟩ := List.mem_range'_1.mp hi
    rcases get?_withBits_bit (w := default) (d := d) hle hlt with hbit | hbit
    · exact .inl (by rw [Assignment.residue_of_get? hbit, Int.cast_zero])
    · exact .inr (by rw [Assignment.residue_of_get? hbit, Int.cast_one])

section

variable (settings : Settings) [Fact settings.field.modulus.Prime]
  {w : Nat → ZMod settings.field.modulus} {s : State} {left right : Nat} {offset : Int}

/-- **Completion.** The equations of a comparison can be completed exactly when the difference of the
compared indices fits into the bits. -/
theorem exists_completes_order_iff (hone : w oneIndex = 1) (hnext : oneIndex < s.next)
    (hl : left < s.next) (hr : right < s.next) :
    (∃ v, Completes (orderConstraints settings left right offset s.next) s.next
        (s.order settings left right offset).next w v) ↔
      (w left - w right + offset).val < 2 ^ settings.bits := by
  constructor
  · rintro ⟨v, hv⟩
    rw [← hv.eq_of_lt hl, ← hv.eq_of_lt hr]
    exact order_difference_lt ((hv.eq_of_lt hnext).trans hone) hv.holds
  · intro hfits
    obtain ⟨u, htarget, hbits, hsum⟩ := exists_bits hfits s
    -- the new values inside, the old ones outside
    let new := Set.Ico s.next (s.order settings left right offset).next
    have hin : ∀ i ∈ new, new.piecewise u w i = u i := fun i hi => Set.piecewise_eq_of_mem _ _ _ hi
    have hout : ∀ i ∉ new, new.piecewise u w i = w i :=
      fun i hi => Set.piecewise_eq_of_notMem _ _ _ hi
    have hold : ∀ i, i < s.next → new.piecewise u w i = w i :=
      fun i hi => hout i fun hmem => absurd hmem.1 (Nat.not_le.mpr hi)
    have hmem : ∀ i ∈ List.range' (s.next + 1) settings.bits, i ∈ new := by
      intro i hi
      obtain ⟨hle, hlt⟩ := List.mem_range'_1.mp hi
      exact ⟨by omega, hlt⟩
    have hnew : s.next ∈ new := ⟨Nat.le_refl _, by simp only [State.order]; omega⟩
    refine ⟨new.piecewise u w, hout, (forall_mem_orderConstraints ?_).mpr ⟨?_, ?_, ?_⟩⟩
    · rw [hold _ hnext, hone]
    · rw [hin _ hnew, hold _ hl, hold _ hr, htarget]
    · intro i hi
      rw [hin i (hmem i hi)]
      exact hbits i hi
    · rw [hin _ hnew, htarget, bitSum_congr fun i hi => hin i (hmem i hi)]
      exact hsum

/-- **Uniqueness.** Compared indices leave one choice for the difference and its bits. -/
theorem subsingleton_completes_order (hroom : 2 ^ settings.bits ≤ settings.field.modulus)
    (hone : w oneIndex = 1) (hnext : oneIndex < s.next) (hl : left < s.next)
    (hr : right < s.next) :
    {v | Completes (orderConstraints settings left right offset s.next) s.next
      (s.order settings left right offset).next w v}.Subsingleton := by
  intro v hv v' hv'
  refine hv.eq_of_eqOn hv' (eqOn_of_orderConstraints hroom ?_ ?_ ?_ ?_ hv.holds hv'.holds)
  · rw [hv.eq_of_lt hnext, hone]
  · rw [hv'.eq_of_lt hnext, hone]
  · rw [hv.eq_of_lt hl, hv'.eq_of_lt hl]
  · rw [hv.eq_of_lt hr, hv'.eq_of_lt hr]

end

/-! ## Numbers of that many bits -/

open Reference.Demand in
/-- **Exactness.** If the modulus has room for one bit more, the difference of two numbers of that many
bits fits into them exactly if it is not negative. -/
theorem val_difference_lt_iff {p bits : Nat} [NeZero p] (hroom : 2 ^ (bits + 1) ≤ p) {x y : ZMod p}
    (hx : x.val < 2 ^ bits) (hy : y.val < 2 ^ bits) (strict : Bool) :
    (x - y + (orderOffset strict : Int)).val < 2 ^ bits ↔
      0 ≤ (x.val : Int) - y.val + orderOffset strict := by
  have hgap : gap x y strict = (x.val : Int) - y.val + orderOffset strict := by
    rw [gap, orderOffset]
    split <;> omega
  have hval := val_difference_eq x y strict
  rw [← sub_add_orderOffset, hgap] at hval
  have hoffset : -1 ≤ orderOffset strict ∧ orderOffset strict ≤ 0 := by
    cases strict <;> decide
  zify [pow_succ] at hroom hx hy ⊢
  rw [hval]
  split <;> omega

/-! ## Assertions of order -/

theorem two_pow_succ_le_scalarModulus {bits : Nat} (h : bits ≤ maxBits) :
    2 ^ (bits + 1) ≤ PrimeField.scalar.modulus :=
  (Nat.pow_le_pow_right Nat.two_pos (Nat.succ_le_succ h)).trans (by decide)

/-- The indices that are compared have been allocated before the difference is. -/
theorem lt_next_of_materialize {settings : Settings} {c : Circuit} {before : List Statement}
    {s s₁ s₂ : State} (hs : lowerStatements settings before (paramState c) = .ok s) {a b : Expr}
    {left right : Nat} (ha : materialize settings.field a s = .ok (left, s₁))
    (hb : materialize settings.field b s₁ = .ok (right, s₂)) :
    oneIndex < s₂.next ∧ left < s₂.next ∧ right < s₂.next := by
  obtain ⟨_, _, hk⟩ := adds_of_lowerStatements hs (knows_paramState c)
  have hma := materializes_of_materialize ha
  have hmb := materializes_of_materialize hb
  obtain ⟨_, hcs, hleft⟩ := hma.adds hk
  have hk₁ := hk.after hcs hma.scope_eq
  obtain ⟨_, hds, hright⟩ := hmb.adds hk₁
  have hk₂ := hk₁.after hds hmb.scope_eq
  exact ⟨hk₂.lt_next _ hk₂.one, (hk₁.lt_next _ hleft).trans_le hds.next_le, hk₂.lt_next _ hright⟩

/-- **Comparisons are exact.** Behind any statements of any circuit, an assertion that `a - b + offset`
is not negative holds its sides at two indices and adds the equations of their difference and its
bits.  Up to the greatest number of bits, and for all values of that many bits at the two indices, these
equations have a solution in the difference and the bits exactly if the number `a - b + offset` is not
negative, and they never have two. -/
theorem order_exact_up_to_maxBits (c : Circuit) (bits : Nat) (hbits : bits ≤ maxBits)
    (before : List Statement) (s : State)
    (hs : lowerStatements ⟨.scalar, bits⟩ before (paramState c) = .ok s) (a b : Expr)
    (offset : Int) (hoffset : offset = 0 ∨ offset = -1) (s' : State)
    (h : assertOrder ⟨.scalar, bits⟩ a b offset s = .ok s') :
    ∃ left s₁ right s₂ added, materialize .scalar a s = .ok (left, s₁) ∧
      materialize .scalar b s₁ = .ok (right, s₂) ∧
      added = orderConstraints ⟨.scalar, bits⟩ left right offset s₂.next ∧
      s'.constraints = s₂.constraints ++ added ∧ s'.next = s₂.next + 1 + bits ∧
      ∀ w : Nat → ZMod scalarModulus, w oneIndex = 1 → (w left).val < 2 ^ bits →
        (w right).val < 2 ^ bits →
        ((∃ v, Completes added s₂.next s'.next w v) ↔
          0 ≤ ((w left).val : Int) - (w right).val + offset) ∧
        {v | Completes added s₂.next s'.next w v}.Subsingleton := by
  obtain ⟨left, s₁, right, s₂, ha, hb, rfl⟩ := order_of_assertOrder h
  obtain ⟨hnext, hl, hr⟩ := lt_next_of_materialize hs ha hb
  refine ⟨left, s₁, right, s₂, _, ha, hb, rfl, rfl, rfl, fun w hone hleft hright => ⟨?_, ?_⟩⟩
  · obtain ⟨strict, rfl⟩ : ∃ strict, offset = orderOffset strict := by
      rcases hoffset with rfl | rfl
      · exact ⟨false, rfl⟩
      · exact ⟨true, rfl⟩
    exact (exists_completes_order_iff ⟨.scalar, bits⟩ hone hnext hl hr).trans
      (val_difference_lt_iff (two_pow_succ_le_scalarModulus hbits) hleft hright strict)
  · exact subsingleton_completes_order ⟨.scalar, bits⟩ (two_pow_le_scalarModulus hbits) hone hnext hl hr

/-- A circuit of two parameters. -/
def pairCircuit : Circuit where
  publicParams := [⟨"limit", 0⟩]
  privateParams := [⟨"amount", 0⟩]
  statements := []

/-- The two greatest numbers of the greatest width as values of the parameters. -/
def topPair : Nat → ZMod scalarModulus
  | 0 => 1
  | 1 => (2 ^ maxBits - 1 : Nat)
  | _ => (2 ^ maxBits - 2 : Nat)

/-- The strict order of the two greatest numbers is met by one choice of difference and bits, and the
reverse order by none. -/
theorem order_exact_up_to_maxBits_top :
    (∃ s', assertOrder ⟨.scalar, maxBits⟩ (.identifier "amount") (.identifier "limit") (-1)
        (paramState pairCircuit) = .ok s' ∧
      (∃ v, Completes s'.constraints 3 s'.next topPair v) ∧
      {v | Completes s'.constraints 3 s'.next topPair v}.Subsingleton) ∧
    ∃ s', assertOrder ⟨.scalar, maxBits⟩ (.identifier "limit") (.identifier "amount") (-1)
        (paramState pairCircuit) = .ok s' ∧
      ¬∃ v, Completes s'.constraints 3 s'.next topPair v := by
  have hamount : (topPair 1).val = 2 ^ maxBits - 1 := ZMod.val_natCast_of_lt (by decide)
  have hlimit : (topPair 2).val = 2 ^ maxBits - 2 := ZMod.val_natCast_of_lt (by decide)
  have hamount_lt : (topPair 1).val < 2 ^ maxBits := by rw [hamount]; decide
  have hlimit_lt : (topPair 2).val < 2 ^ maxBits := by rw [hlimit]; decide
  have hgreater : 0 ≤ ((topPair 1).val : Int) - (topPair 2).val + -1 := by
    rw [hamount, hlimit]
    decide
  have hless : ¬0 ≤ ((topPair 2).val : Int) - (topPair 1).val + -1 := by omega
  refine ⟨⟨_, rfl, ?_⟩, ⟨_, rfl, ?_⟩⟩
  · obtain ⟨left, s₁, right, s₂, added, ha, hb, -, hadded, -, hexact⟩ :=
      order_exact_up_to_maxBits pairCircuit maxBits (Nat.le_refl _) [] _ rfl (.identifier "amount")
        (.identifier "limit") (-1) (.inr rfl) _ rfl
    cases ha
    cases hb
    obtain rfl : added = _ := hadded.symm
    obtain ⟨hiff, hunique⟩ := hexact topPair rfl hamount_lt hlimit_lt
    exact ⟨hiff.mpr hgreater, hunique⟩
  · obtain ⟨left, s₁, right, s₂, added, ha, hb, -, hadded, -, hexact⟩ :=
      order_exact_up_to_maxBits pairCircuit maxBits (Nat.le_refl _) [] _ rfl (.identifier "limit")
        (.identifier "amount") (-1) (.inr rfl) _ rfl
    cases ha
    cases hb
    obtain rfl : added = _ := hadded.symm
    have hiff := (hexact topPair rfl hlimit_lt hamount_lt).1
    exact fun h => hless (hiff.mp h)

end ArrowCircuit.Lowering
