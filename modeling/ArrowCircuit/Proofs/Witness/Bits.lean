import ArrowCircuit.Proofs.Witness.Replay

/-!
# Bits in a witness

Numbers below a power of two and lists of bits determine each other.  The comparison of two indices
stores their difference and the bits of the difference.  In the field that can be done exactly when
the difference has a representative of as many bits; the schedule does it exactly when the difference
of the representatives is a number of as many bits.
-/

namespace ArrowCircuit

/-! ## Lists of bits -/

namespace Bits

theorem length_lowBits (count value : Nat) : (lowBits count value).length = count := by
  induction count generalizing value with
  | zero => rfl
  | succ count ih => rw [lowBits, List.length_cons, ih]

theorem eq_zero_or_one_of_mem_lowBits {count value : Nat} {b : Int}
    (h : b ∈ lowBits count value) : b = 0 ∨ b = 1 := by
  induction count generalizing value with
  | zero => cases h
  | succ count ih =>
      rcases List.mem_cons.mp h with rfl | h
      · omega
      · exact ih h

/-- A number that fits is recovered from its bits. -/
theorem recompose_lowBits {count value : Nat} (h : value < 2 ^ count) :
    recompose (lowBits count value) = value := by
  induction count generalizing value with
  | zero =>
      have hzero : value = 0 := by simpa using h
      rw [hzero]
      rfl
  | succ count ih =>
      have hhalf : value / 2 < 2 ^ count := by
        rw [pow_succ] at h
        omega
      rw [lowBits, recompose, ih hhalf]
      omega

theorem decompose_of_lt {count value : Nat} (h : value < 2 ^ count) :
    decompose value count = .ok (lowBits count value) := by
  rw [decompose, if_neg (by omega), if_neg (by omega), if_pos (by simpa using h)]
  simp only [Int.toNat_natCast]

theorem decompose_of_le {count value : Nat} (h : 2 ^ count ≤ value) :
    decompose value count = .error (.tooLarge value count) := by
  rw [decompose, if_neg (by omega), if_neg (by omega), if_neg (by simpa using h)]

/-- The entries of a list are bits. -/
def AreBits (bs : List Int) : Prop := ∀ b ∈ bs, b = 0 ∨ b = 1

instance (bs : List Int) : Decidable (AreBits bs) :=
  inferInstanceAs (Decidable (∀ b ∈ bs, b = 0 ∨ b = 1))

/-- As many bits give a number below the power of two. -/
theorem recompose_lt {bs : List Int} (h : AreBits bs) :
    0 ≤ recompose bs ∧ recompose bs < 2 ^ bs.length := by
  induction bs with
  | nil => decide
  | cons b rest ih =>
      obtain ⟨hb, hrest⟩ := List.forall_mem_cons.mp h
      obtain ⟨hnonneg, hlt⟩ := ih hrest
      rw [recompose, List.length_cons, pow_succ]
      omega

/-- Bits are recovered from their number. -/
theorem lowBits_recompose {bs : List Int} (h : AreBits bs) :
    lowBits bs.length (recompose bs).toNat = bs := by
  induction bs with
  | nil => rfl
  | cons b rest ih =>
      obtain ⟨hb, hrest⟩ := List.forall_mem_cons.mp h
      have hnonneg := (recompose_lt hrest).1
      have hlow : (((b + 2 * recompose rest).toNat % 2 : Nat) : Int) = b := by omega
      have hhigh : (b + 2 * recompose rest).toNat / 2 = (recompose rest).toNat := by omega
      rw [recompose, List.length_cons, lowBits, hlow, hhigh, ih hrest]

/-- The bits of a number are the only ones that give it. -/
theorem decompose_eq_ok_iff {v : Int} {n : Nat} {bs : List Int} :
    decompose v n = .ok bs ↔ bs.length = n ∧ AreBits bs ∧ recompose bs = v := by
  constructor
  · intro h
    have hneg : ¬ v < 0 := by
      intro hneg
      rw [decompose, if_pos hneg] at h
      cases h
    lift v to Nat using Int.not_lt.mp hneg
    rcases Nat.lt_or_ge v (2 ^ n) with hlt | hle
    · rw [decompose_of_lt hlt, Except.ok.injEq] at h
      subst h
      exact ⟨length_lowBits n v, fun b => eq_zero_or_one_of_mem_lowBits, recompose_lowBits hlt⟩
    · rw [decompose_of_le hle] at h
      cases h
  · rintro ⟨rfl, hbits, rfl⟩
    obtain ⟨hnonneg, hlt⟩ := recompose_lt hbits
    have hcast : ((recompose bs).toNat : Int) = recompose bs := Int.toNat_of_nonneg hnonneg
    have hlt' : (recompose bs).toNat < 2 ^ bs.length := by
      rw [← hcast] at hlt
      exact_mod_cast hlt
    rw [← hcast, decompose_of_lt hlt', lowBits_recompose hbits]

/-- The only faults: the number is negative, or it is too large. -/
theorem decompose_eq_error_iff {v : Int} {n : Nat} {fault : Fault} :
    decompose v n = .error fault ↔
      v < 0 ∧ fault = .negative v n ∨ 2 ^ n ≤ v ∧ fault = .tooLarge v n := by
  by_cases hneg : v < 0
  · have hlt : ¬ (2 : Int) ^ n ≤ v := by
      have := pow_pos (show (0 : Int) < 2 by decide) n
      omega
    rw [decompose, if_pos hneg, Except.error.injEq]
    simp only [hneg, hlt, true_and, false_and, or_false, eq_comm]
  · lift v to Nat using Int.not_lt.mp hneg
    rcases Nat.lt_or_ge v (2 ^ n) with hlt | hle
    · have hlt' : ¬ (2 : Int) ^ n ≤ v := by
        exact_mod_cast Nat.not_le.mpr hlt
      rw [decompose_of_lt hlt]
      simp only [hneg, hlt', false_and, or_false, reduceCtorEq]
    · have hle' : (2 : Int) ^ n ≤ v := by
        exact_mod_cast hle
      rw [decompose_of_le hle, Except.error.injEq]
      simp only [hneg, hle', true_and, false_and, false_or, eq_comm]

theorem exists_decompose_iff {v : Int} {n : Nat} :
    (∃ bs, decompose v n = .ok bs) ↔ 0 ≤ v ∧ v < 2 ^ n := by
  constructor
  · rintro ⟨bs, h⟩
    obtain ⟨rfl, hbits, rfl⟩ := decompose_eq_ok_iff.mp h
    exact recompose_lt hbits
  · rintro ⟨hnonneg, hlt⟩
    lift v to Nat using hnonneg
    exact ⟨_, decompose_of_lt (by exact_mod_cast hlt)⟩

/-- **Bits are a bijection.** The numbers from zero to the power of two, and no others, have bits: as
many as asked for, each zero or one, and the number is recovered from them.  Every list of bits is
recovered from its number.  What does not fit is refused for its sign or its size. -/
theorem decompose_bijective :
    (∀ (v : Int) (n : Nat), (∃ bs, decompose v n = .ok bs) ↔ 0 ≤ v ∧ v < 2 ^ n) ∧
      (∀ (v : Int) (n : Nat) (bs : List Int), decompose v n = .ok bs →
        bs.length = n ∧ AreBits bs ∧ recompose bs = v) ∧
      (∀ bs : List Int, AreBits bs → decompose (recompose bs) bs.length = .ok bs) ∧
      ∀ (v : Int) (n : Nat) (fault : Fault), decompose v n = .error fault ↔
        v < 0 ∧ fault = .negative v n ∨ 2 ^ n ≤ v ∧ fault = .tooLarge v n :=
  ⟨fun _ _ => exists_decompose_iff, fun _ _ _ => decompose_eq_ok_iff.mp,
    fun _ hbits => decompose_eq_ok_iff.mpr ⟨rfl, hbits, rfl⟩, fun _ _ _ => decompose_eq_error_iff⟩

/-- Six in four bits, the greatest number of eight bits and its two neighbours outside. -/
theorem decompose_bijective_bytes :
    (decompose 6 4 = .ok [0, 1, 1, 0] ∧ [0, 1, 1, 0].length = 4 ∧ AreBits [0, 1, 1, 0] ∧
        recompose [0, 1, 1, 0] = 6) ∧
      (AreBits (List.replicate 8 1) ∧
        decompose (recompose (List.replicate 8 1)) 8 = .ok (List.replicate 8 1)) ∧
      decompose 256 8 = .error (.tooLarge 256 8) ∧ decompose (-1) 8 = .error (.negative (-1) 8) := by
  have hsix : decompose 6 4 = .ok [0, 1, 1, 0] := by decide
  have hones : AreBits (List.replicate 8 1) := by decide
  obtain ⟨-, hforth, hback, hfaults⟩ := decompose_bijective
  exact ⟨⟨hsix, hforth 6 4 _ hsix⟩, ⟨hones, hback _ hones⟩,
    (hfaults 256 8 _).mpr (.inr ⟨by decide, rfl⟩), (hfaults (-1) 8 _).mpr (.inl ⟨by decide, rfl⟩)⟩

end Bits

/-! ## Runs of indices -/

namespace Assignment

theorem get?_setAll_of_notMem (w : Assignment) {targets : List Nat} {i : Nat} (h : i ∉ targets)
    (values : List Int) : (w.setAll targets values).get? i = w.get? i := by
  induction targets generalizing w values with
  | nil => rfl
  | cons target rest ih =>
      obtain ⟨hne, hrest⟩ := not_or.mp (List.mem_cons.not.mp h)
      cases values with
      | nil => rfl
      | cons v values => rw [setAll, ih _ hrest, get?_set, if_neg hne]

theorem get?_setAll_of_mem (w : Assignment) {targets : List Nat} {i : Nat} {values : List Int}
    (hlen : values.length = targets.length) (hi : i ∈ targets) :
    ∃ v ∈ values, (w.setAll targets values).get? i = some v := by
  induction targets generalizing w values with
  | nil => cases hi
  | cons target rest ih =>
      cases values with
      | nil => cases hlen
      | cons v values =>
          rw [List.length_cons, List.length_cons, Nat.add_right_cancel_iff] at hlen
          rw [setAll]
          -- the last value that an index is given stays
          by_cases hrest : i ∈ rest
          · obtain ⟨x, hx, hget⟩ := ih (w.set target v) hlen hrest
            exact ⟨x, List.mem_cons_of_mem v hx, hget⟩
          · refine ⟨v, List.mem_cons_self, ?_⟩
            have heq := (List.mem_cons.mp hi).resolve_right hrest
            rw [get?_setAll_of_notMem _ hrest, get?_set, if_pos heq]

theorem get?_setAll_of_lt (w : Assignment) {start i : Nat} (h : i < start) (count : Nat)
    (values : List Int) :
    (w.setAll (List.range' start count) values).get? i = w.get? i :=
  w.get?_setAll_of_notMem (fun hi => absurd (List.mem_range'_1.mp hi).1 (by omega)) values

theorem get?_setAll_of_ge (w : Assignment) {start count i : Nat} (h : start + count ≤ i)
    (values : List Int) :
    (w.setAll (List.range' start count) values).get? i = w.get? i :=
  w.get?_setAll_of_notMem (fun hi => absurd (List.mem_range'_1.mp hi).2 (by omega)) values

/-- The indices that were set spell the number of the list. -/
theorem bitSum_setAll {p : Nat} (w : Assignment) {start count : Nat} {values : List Int}
    (hlen : values.length = count) :
    Lowering.bitSum ((w.setAll (List.range' start count) values).residue p)
      (List.range' start count) = Bits.recompose values := by
  induction count generalizing start w values with
  | zero =>
      rw [List.length_eq_zero_iff.mp hlen, Bits.recompose, Int.cast_zero]
      rfl
  | succ count ih =>
      cases values with
      | nil => cases hlen
      | cons v rest =>
          rw [List.length_cons, Nat.add_right_cancel_iff] at hlen
          have hhead : ((w.set start v).setAll (List.range' (start + 1) count) rest).get? start =
              some v := by
            rw [get?_setAll_of_lt _ (by omega), get?_set, if_pos rfl]
          rw [List.range'_succ, setAll, Lowering.bitSum, ih _ hlen, residue_of_get? hhead,
            Bits.recompose]
          push_cast
          ring

end Assignment

namespace Lowering

/-! ## Comparisons -/

/-- An assignment with a difference and its bits at the next indices. -/
def withBits {p : Nat} (bits : Nat) (s : State) (w : Assignment) (d : ZMod p) : Assignment :=
  (w.set s.next (d.val : Int)).setAll (List.range' (s.next + 1) bits) (Bits.lowBits bits d.val)

section

variable {p : Nat} {bits : Nat} {s : State} {w : Assignment} {d : ZMod p}

theorem get?_withBits_of_lt {i : Nat} (h : i < s.next) :
    (withBits bits s w d).get? i = w.get? i := by
  rw [withBits, Assignment.get?_setAll_of_lt _ (by omega), Assignment.get?_set, if_neg (by omega)]

theorem get?_withBits_next : (withBits bits s w d).get? s.next = some (d.val : Int) := by
  rw [withBits, Assignment.get?_setAll_of_lt _ (by omega), Assignment.get?_set, if_pos rfl]

theorem get?_withBits_of_ge {i : Nat} (h : s.next + 1 + bits ≤ i) :
    (withBits bits s w d).get? i = w.get? i := by
  rw [withBits, Assignment.get?_setAll_of_ge _ (by omega), Assignment.get?_set, if_neg (by omega)]

theorem get?_withBits_bit {i : Nat} (hle : s.next + 1 ≤ i) (hlt : i < s.next + 1 + bits) :
    (withBits bits s w d).get? i = some 0 ∨ (withBits bits s w d).get? i = some 1 := by
  have hlen : (Bits.lowBits bits d.val).length = (List.range' (s.next + 1) bits).length := by
    rw [Bits.length_lowBits, List.length_range']
  obtain ⟨v, hv, hget⟩ := (w.set s.next (d.val : Int)).get?_setAll_of_mem hlen
    (List.mem_range'_1.mpr ⟨hle, hlt⟩)
  rw [withBits, hget]
  rcases Bits.eq_zero_or_one_of_mem_lowBits hv with rfl | rfl
  · exact .inl rfl
  · exact .inr rfl

theorem bitSum_withBits [NeZero p] (h : d.val < 2 ^ bits) :
    bitSum ((withBits bits s w d).residue p) (List.range' (s.next + 1) bits) = d := by
  rw [withBits, Assignment.bitSum_setAll _ (Bits.length_lowBits bits d.val),
    Bits.recompose_lowBits h, Int.cast_natCast, ZMod.natCast_zmod_val]

end

section Order

variable {settings : Settings} {s : State} {w : Assignment} {left right : Nat} {offset : Int}
  {d : ZMod settings.field.modulus}

theorem le_withBits (hw : Ready settings.field s w) : w.Le (withBits settings.bits s w d) := by
  intro i x hx
  by_cases hi : i < s.next
  · rw [get?_withBits_of_lt hi, hx]
  · rw [hw.fresh i (by omega)] at hx
    cases hx

theorem isSome_withBits {i : Nat} (hle : s.next ≤ i) (hlt : i < s.next + 1 + settings.bits) :
    ((withBits settings.bits s w d).get? i).isSome := by
  by_cases hi : i = s.next
  · rw [hi, get?_withBits_next, Option.isSome_some]
  · rcases get?_withBits_bit (w := w) (d := d) (show s.next + 1 ≤ i by omega) hlt with h | h
    all_goals rw [h, Option.isSome_some]

theorem covers_orderConstraints (hw : Ready settings.field s w) (hl : (w.get? left).isSome)
    (hr : (w.get? right).isSome) {k : Constraint}
    (hk : k ∈ orderConstraints settings left right offset s.next) :
    (withBits settings.bits s w d).CoversConstraint k := by
  have hle : w.Le (withBits settings.bits s w d) := le_withBits hw
  have hone := hle.isSome hw.isSome_one
  have hnext : (withBits settings.bits s w d).Covers (.single s.next) := by
    refine Assignment.covers_singleton ?_
    rw [get?_withBits_next, Option.isSome_some]
  have hbit : ∀ i ∈ List.range' (s.next + 1) settings.bits,
      ((withBits settings.bits s w d).get? i).isSome := by
    intro i hi
    obtain ⟨hlo, hhi⟩ := List.mem_range'_1.mp hi
    exact isSome_withBits (by omega) hhi
  rcases mem_orderConstraints.mp hk with rfl | ⟨i, hi, rfl⟩ | rfl
  · refine covers_linearConstraint ?_ hnext hone
    rw [orderForm, Assignment.covers_append, Assignment.covers_cons]
    refine ⟨⟨hle.isSome hl, Assignment.covers_singleton (hle.isSome hr)⟩, ?_⟩
    by_cases h : offset = 0
    · rw [if_pos h]
      exact Assignment.covers_nil _
    · rw [if_neg h]
      exact Assignment.covers_singleton hone
  · have hcov : (withBits settings.bits s w d).Covers (.single i) :=
      Assignment.covers_singleton (hbit i hi)
    exact ⟨hcov.merge _, hcov.merge _, hcov.merge _⟩
  · refine covers_linearConstraint ?_ hnext hone
    intro t ht
    obtain ⟨⟨i, k⟩, hi, rfl⟩ := List.mem_map.mp ht
    exact hbit i (List.fst_mem_of_mem_zipIdx hi)

variable [Fact settings.field.modulus.Prime]

theorem canonical_withBits (hw : Ready settings.field s w) {i : Nat} {v : Int}
    (h : (withBits settings.bits s w d).get? i = some v) : Canonical settings.field.modulus v := by
  have hp : 1 < settings.field.modulus := (Fact.out : settings.field.modulus.Prime).one_lt
  by_cases hlt : i < s.next
  · rw [get?_withBits_of_lt hlt] at h
    exact hw.canonical i v h
  by_cases hnext : i = s.next
  · rw [hnext, get?_withBits_next, Option.some.injEq] at h
    rw [← h]
    exact canonical_val d
  by_cases hbit : i < s.next + 1 + settings.bits
  · rcases get?_withBits_bit (w := w) (d := d) (show s.next + 1 ≤ i by omega) hbit with hb | hb
    all_goals
      rw [hb, Option.some.injEq] at h
      rw [← h]
      exact ⟨by omega, by omega⟩
  · rw [get?_withBits_of_ge (by omega), hw.fresh i (by omega)] at h
    cases h

/-- The equations of a comparison hold of a difference that fits and its bits. -/
theorem holds_orderConstraints (hw : Ready settings.field s w) (hl : (w.get? left).isSome)
    (hr : (w.get? right).isSome)
    (hd : w.residue settings.field.modulus left - w.residue settings.field.modulus right +
      offset = d)
    (hlt : d.val < 2 ^ settings.bits) :
    ∀ k ∈ orderConstraints settings left right offset s.next,
      k.Holds ((withBits settings.bits s w d).residue settings.field.modulus) := by
  have hle : w.Le (withBits settings.bits s w d) := le_withBits hw
  have hone : (withBits settings.bits s w d).residue settings.field.modulus oneIndex = 1 := by
    rw [hle.residue_eq hw.isSome_one, hw.residue_one]
  have hnext : (withBits settings.bits s w d).residue settings.field.modulus s.next = d := by
    rw [Assignment.residue_of_get? get?_withBits_next, Int.cast_natCast, ZMod.natCast_zmod_val]
  refine (forall_mem_orderConstraints hone).mpr ⟨?_, fun i hi => ?_, ?_⟩
  · rw [hnext, hle.residue_eq hl, hle.residue_eq hr, hd]
  · obtain ⟨hlo, hhi⟩ := List.mem_range'_1.mp hi
    rcases get?_withBits_bit (w := w) (d := d) hlo hhi with h | h
    · left
      rw [Assignment.residue_of_get? h, Int.cast_zero]
    · right
      rw [Assignment.residue_of_get? h, Int.cast_one]
  · rw [hnext, bitSum_withBits hlt]

/-- **Comparisons in the field.** A difference that fits can be stored with its bits, whichever of
the two sides is greater. -/
theorem advances_order (hw : Ready settings.field s w) (hl : (w.get? left).isSome)
    (hr : (w.get? right).isSome)
    (hd : w.residue settings.field.modulus left - w.residue settings.field.modulus right +
      offset = d)
    (hlt : d.val < 2 ^ settings.bits) :
    Advances settings.field s (s.order settings left right offset) w
        (withBits settings.bits s w d) ∧
      (Satisfied settings.field (s.order settings left right offset)
        (withBits settings.bits s w d) ↔ Satisfied settings.field s w) := by
  have hle : w.Le (withBits settings.bits s w d) := le_withBits hw
  have hready : Ready settings.field (s.order settings left right offset)
      (withBits settings.bits s w d) := by
    refine ⟨hle _ _ hw.one, fun i v => canonical_withBits hw, ?_,
      fun e he => hle.isSome (hw.bound e he), ?_⟩
    · intro i hi
      have hi' : s.next + 1 + settings.bits ≤ i := hi
      rw [get?_withBits_of_ge hi']
      exact hw.fresh i (by omega)
    · intro k hk
      rcases List.mem_append.mp hk with hk | hk
      · obtain ⟨ha, hb, hc⟩ := hw.covered k hk
        exact ⟨hle.covers ha, hle.covers hb, hle.covers hc⟩
      · exact covers_orderConstraints hw hl hr hk
  refine ⟨⟨hready, fun i hi => get?_withBits_of_lt hi, fun i hi hi' => isSome_withBits hi hi'⟩, ?_⟩
  rw [hw.satisfied_iff_of_le hle (show _ = _ ++ _ from rfl)]
  exact and_iff_left (holds_orderConstraints hw hl hr hd hlt)

end Order

/-! ## The schedule of a comparison -/

section Schedule

variable {f : PrimeField} {w : Assignment} {left right target : Nat} {offset : Int}

theorem apply_bits {source count : Nat} {targets : List Nat} {v : Nat}
    (h : w.get? source = some (v : Int)) (hlt : v < 2 ^ count) :
    Witness.apply f w (.bits source targets count) =
      .ok (w.setAll targets (Bits.lowBits count v)) := by
  simp only [Witness.apply, Witness.read, h, Bits.decompose_of_lt hlt, Except.mapError, bind,
    Except.bind, pure, Except.pure]

theorem fails_apply_bits {source count : Nat} {targets : List Nat} {v : Nat}
    (h : w.get? source = some (v : Int)) (hle : 2 ^ count ≤ v) :
    Fails (Witness.apply f w (.bits source targets count)) := by
  refine ⟨.bits (.tooLarge v count), ?_⟩
  simp only [Witness.apply, Witness.read, h, Bits.decompose_of_le hle, Except.mapError, bind,
    Except.bind]

theorem fails_apply_subtract {l r : Int} (hl : w.get? left = some l) (hr : w.get? right = some r)
    (h : l - r + offset < 0) : Fails (Witness.apply f w (.subtract target left right offset)) := by
  refine ⟨.negativeDifference (l - r + offset) left l right r offset, ?_⟩
  simp only [Witness.apply, Witness.read, hl, hr, bind, Except.bind]
  rw [if_pos h]

variable [Fact f.modulus.Prime] {x y : ZMod f.modulus}

theorem intCast_difference (x y : ZMod f.modulus) (offset : Int) :
    (((x.val : Int) - y.val + offset : Int) : ZMod f.modulus) = x - y + offset := by
  push_cast
  rw [ZMod.natCast_zmod_val, ZMod.natCast_zmod_val]

/-- A difference of representatives that is not negative is a representative. -/
theorem val_difference (hoffset : offset ≤ 0) (h : 0 ≤ (x.val : Int) - y.val + offset) :
    ((x - y + offset : ZMod f.modulus).val : Int) = x.val - y.val + offset := by
  have hx := x.val_lt
  have hcanonical : Canonical f.modulus ((x.val : Int) - y.val + offset) := ⟨h, by omega⟩
  rw [← intCast_difference, hcanonical.val_intCast]

theorem apply_subtract (hl : w.get? left = some (x.val : Int))
    (hr : w.get? right = some (y.val : Int)) (h : 0 ≤ (x.val : Int) - y.val + offset) :
    Witness.apply f w (.subtract target left right offset) =
      .ok (w.set target ((x - y + offset : ZMod f.modulus).val : Int)) := by
  simp only [Witness.apply, Witness.read, hl, hr, bind, Except.bind, pure, Except.pure]
  rw [if_neg (Int.not_lt.mpr h), f.reduce_eq_val, intCast_difference]

end Schedule

section

variable {settings : Settings} {s : State} {w : Assignment} {left right : Nat} {offset : Int}

theorem replay_order_eq (f : PrimeField) (s : State) (w : Assignment) :
    replay f s (s.order settings left right offset) w =
      Witness.apply f w (.subtract s.next left right offset) >>= fun w =>
        Witness.apply f w
          (.bits s.next (List.range' (s.next + 1) settings.bits) settings.bits) := by
  rw [replay_of_append rfl]
  simp only [Witness.applyAll]
  congr 1
  funext w'
  cases Witness.apply f w' _ <;> rfl

variable [Fact settings.field.modulus.Prime] {x y : ZMod settings.field.modulus}

/-- **Comparisons of representatives.** The schedule of a comparison stores the difference with its
bits when the difference of the representatives fits. -/
theorem replay_order (hl : w.get? left = some (x.val : Int))
    (hr : w.get? right = some (y.val : Int)) (hoffset : offset ≤ 0)
    (h : 0 ≤ (x.val : Int) - y.val + offset)
    (hlt : (x.val : Int) - y.val + offset < 2 ^ settings.bits) :
    replay settings.field s (s.order settings left right offset) w =
      .ok (withBits settings.bits s w (x - y + offset : ZMod settings.field.modulus)) := by
  have hval := val_difference hoffset h
  have hget : (w.set s.next ((x - y + offset : ZMod settings.field.modulus).val : Int)).get?
      s.next = some ((x - y + offset : ZMod settings.field.modulus).val : Int) := by
    rw [Assignment.get?_set, if_pos rfl]
  have hlt' : ((x - y + offset : ZMod settings.field.modulus).val : Int) < 2 ^ settings.bits := by
    rw [hval]
    exact hlt
  rw [replay_order_eq, apply_subtract hl hr h]
  exact apply_bits (f := settings.field) hget (by exact_mod_cast hlt')

theorem fails_replay_order (hl : w.get? left = some (x.val : Int))
    (hr : w.get? right = some (y.val : Int)) (hoffset : offset ≤ 0)
    (h : ¬ (0 ≤ (x.val : Int) - y.val + offset ∧
      (x.val : Int) - y.val + offset < 2 ^ settings.bits)) :
    Fails (replay settings.field s (s.order settings left right offset) w) := by
  rw [replay_order_eq]
  by_cases hneg : (x.val : Int) - y.val + offset < 0
  · exact (fails_apply_subtract hl hr hneg).bind _
  · have hnonneg : 0 ≤ (x.val : Int) - y.val + offset := Int.not_lt.mp hneg
    have hval := val_difference hoffset hnonneg
    have hget : (w.set s.next ((x - y + offset : ZMod settings.field.modulus).val : Int)).get?
        s.next = some ((x - y + offset : ZMod settings.field.modulus).val : Int) := by
      rw [Assignment.get?_set, if_pos rfl]
    have hle : (2 : Int) ^ settings.bits ≤
        ((x - y + offset : ZMod settings.field.modulus).val : Int) := by
      rw [hval]
      exact Int.not_lt.mp fun hlt => h ⟨hnonneg, hlt⟩
    rw [apply_subtract hl hr hnonneg]
    exact fails_apply_bits (f := settings.field) hget (by exact_mod_cast hle)

end

end Lowering

end ArrowCircuit
