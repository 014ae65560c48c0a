import ArrowCircuit.Number.Numeral
import Mathlib.Data.List.TakeWhile
import Mathlib.Data.Nat.Digits.Lemmas
import Mathlib.Tactic.IntervalCases

/-!
# Reading numerals

Blanks around a numeral do not matter: where a text is read, so is the text stripped of them, and as the
same integer (`read_strip`).  A numeral that can be read in base 10 and in base 16 has the same sign and
the same digits in both readings (`read_both`), which denote the same number only below ten.  A text of
digits is read as their value (`read_digits`), in particular the decimal text of a number within the limit
as that number (`read_toDigits`); behind the mark of base 16 there is no limit (`read_marked`).
-/

namespace ArrowCircuit.Numeral

/-! ## Blanks -/

/-- The blanks one by one. -/
def blanks : List Nat :=
  [0x9, 0xa, 0xb, 0xc, 0xd, 0x1c, 0x1d, 0x1e, 0x1f, 0x20, 0x85, 0xa0, 0x1680, 0x2000, 0x2001, 0x2002,
    0x2003, 0x2004, 0x2005, 0x2006, 0x2007, 0x2008, 0x2009, 0x200a, 0x2028, 0x2029, 0x202f, 0x205f,
    0x3000]

theorem mem_blanks_of_isBlank {c : Nat} (h : Text.isBlank c = true) : c ∈ blanks := by
  simp only [Text.isBlank, Text.isNumeralBlank, Bool.or_eq_true, Bool.and_eq_true, decide_eq_true_eq,
    beq_iff_eq] at h
  simp only [blanks, List.mem_cons, List.not_mem_nil, or_false]
  omega

theorem isBlank_of_isNumeralBlank {c : Nat} (h : Text.isNumeralBlank c = true) :
    Text.isBlank c = true := by
  rw [Text.isBlank, h, Bool.true_or]

/-- A blank is neither a digit nor a letter, and no part of a mark or a sign. -/
theorem blank_facts : ∀ c ∈ blanks, Text.decimalValue? c = none ∧ ¬(0x61 ≤ c ∧ c ≤ 0x7a) ∧
    ¬(0x41 ≤ c ∧ c ≤ 0x5a) ∧ c ≠ 0x5f ∧ c ≠ 0x2d ∧ c ≠ 0x2b := by
  decide

theorem digitValue?_of_blank {c : Nat} (h : Text.isBlank c = true) (base : Nat) :
    digitValue? base c = none := by
  obtain ⟨hdecimal, hlower, hupper, -⟩ := blank_facts c (mem_blanks_of_isBlank h)
  simp only [digitValue?, hdecimal, if_neg hlower, if_neg hupper, Nat.lt_irrefl, if_false]

/-- A text without an underscore in front. -/
def dropUnderscore : Text → Text
  | c :: rest => if c = 0x5f then rest else c :: rest
  | [] => []

theorem dropHexMark_cons_cons (z x : Nat) (rest : Text) :
    dropHexMark (z :: x :: rest) =
      if Text.decimalValue? z = some 0 ∧ (x = 0x78 ∨ x = 0x58) then dropUnderscore rest
      else z :: x :: rest := by
  cases rest <;> rfl

/-- A text of blanks only. -/
def Blank (t : Text) : Prop := ∀ c ∈ t, Text.isBlank c = true

theorem blank_nil : Blank [] := fun _ hc => absurd hc List.not_mem_nil

theorem splitSign_append {s : Text} (hs : s ≠ []) (rest : Text) :
    splitSign (s ++ rest) = ((splitSign s).1, (splitSign s).2 ++ rest) := by
  obtain ⟨c, s, rfl⟩ := List.exists_cons_of_ne_nil hs
  rw [List.cons_append, splitSign, splitSign]
  split
  · rfl
  · split <;> rfl

section Blanks

variable {base : Nat} {s blank : Text} (hblank : Blank blank)

include hblank

theorem splitSign_of_blank : splitSign blank = (false, blank) := by
  cases blank with
  | nil => rfl
  | cons b rest =>
      obtain ⟨-, -, -, -, hminus, hplus⟩ :=
        blank_facts b (mem_blanks_of_isBlank (hblank b List.mem_cons_self))
      rw [splitSign, if_neg hminus, if_neg hplus]

theorem dropUnderscore_append_blank : dropUnderscore (s ++ blank) = dropUnderscore s ++ blank := by
  cases s with
  | cons c rest =>
      rw [List.cons_append, dropUnderscore, dropUnderscore]
      split <;> rfl
  | nil =>
      cases blank with
      | nil => rfl
      | cons b rest =>
          obtain ⟨-, -, -, hunderscore, -, -⟩ :=
            blank_facts b (mem_blanks_of_isBlank (hblank b List.mem_cons_self))
          exact if_neg hunderscore

/-- Blanks behind a text do not become part of its mark. -/
theorem dropHexMark_append_blank : dropHexMark (s ++ blank) = dropHexMark s ++ blank := by
  have hfacts : ∀ b ∈ blank, Text.decimalValue? b = none ∧ ¬(b = 0x78 ∨ b = 0x58) := by
    intro b hb
    obtain ⟨hdecimal, hlower, hupper, -⟩ := blank_facts b (mem_blanks_of_isBlank (hblank b hb))
    exact ⟨hdecimal, by omega⟩
  cases s with
  | nil =>
      cases blank with
      | nil => rfl
      | cons b rest =>
          cases rest with
          | nil => rfl
          | cons b' rest =>
              -- no blank is a zero
              have hzero : Text.decimalValue? b ≠ some 0 := by
                rw [(hfacts b List.mem_cons_self).1]
                exact Option.some_ne_none 0 |>.symm
              rw [List.nil_append, dropHexMark_cons_cons, if_neg fun h => hzero h.1]
              rfl
  | cons z s =>
      cases s with
      | nil =>
          cases blank with
          | nil => rfl
          | cons b rest =>
              -- no blank is the letter of a mark
              have hletter := (hfacts b List.mem_cons_self).2
              rw [List.cons_append, List.nil_append, dropHexMark_cons_cons,
                if_neg fun h => hletter h.2]
              rfl
      | cons x rest =>
          rw [List.cons_append, List.cons_append, dropHexMark_cons_cons, dropHexMark_cons_cons]
          split
          · exact dropUnderscore_append_blank hblank
          · rfl

/-- Blanks behind a run of digits are left over. -/
theorem scan_append_blank (value count : Nat) (gap : Bool) :
    scan base value count gap (s ++ blank) =
      (scan base value count gap s).map fun run => { run with rest := run.rest ++ blank } := by
  induction s generalizing value count gap with
  | nil =>
      rw [List.nil_append]
      cases blank with
      | nil => cases gap <;> rfl
      | cons b rest =>
          have hb := hblank b List.mem_cons_self
          obtain ⟨-, -, -, hunderscore, -, -⟩ := blank_facts b (mem_blanks_of_isBlank hb)
          simp only [scan, digitValue?_of_blank hb, if_neg hunderscore]
          cases gap <;> rfl
  | cons c rest ih =>
      rw [List.cons_append, scan, scan]
      cases digitValue? base c with
      | some d => exact ih _ _ _
      | none =>
          dsimp only
          split
          · rfl
          · split
            · exact ih _ _ _
            · rfl

theorem scan_of_blank : scan base 0 0 true blank = none := by
  have h : scan base 0 0 true ([] ++ blank) = none := scan_append_blank hblank 0 0 true
  rwa [List.nil_append] at h

theorem dropHexMark_of_blank : dropHexMark blank = blank := by
  have h := dropHexMark_append_blank (s := []) hblank
  rwa [List.nil_append] at h

end Blanks

/-! ## Reading -/

/-- What a text has behind its blanks and its sign, without the mark of base 16. -/
def unsigned (base : Nat) (t : Text) : Text :=
  let s := (splitSign (t.dropWhile Text.isNumeralBlank)).2
  if base = 16 then dropHexMark s else s

/-- Whether a text has a minus sign. -/
def isNegative (t : Text) : Bool := (splitSign (t.dropWhile Text.isNumeralBlank)).1

theorem read_eq_ok_iff {base : Nat} {t : Text} {z : Int} :
    read base t = .ok z ↔ ∃ run, scan base 0 0 true (unsigned base t) = some run ∧
      ¬(base = 10 ∧ digitLimit < run.count) ∧ run.rest.all Text.isNumeralBlank = true ∧
      z = signed (isNegative t) run.value := by
  have hread : unsigned base t =
      if base = 16 then dropHexMark (splitSign (t.dropWhile Text.isNumeralBlank)).2
        else (splitSign (t.dropWhile Text.isNumeralBlank)).2 := rfl
  simp only [read, ← hread]
  cases hscan : scan base 0 0 true (unsigned base t) with
  | none =>
      constructor
      · intro h
        cases h
      · rintro ⟨run, hrun, -⟩
        cases hrun
  | some run =>
      constructor
      · intro h
        dsimp only at h
        split at h
        · cases h
        · next hcount =>
            split at h
            · next hrest =>
                cases h
                exact ⟨run, rfl, hcount, hrest, rfl⟩
            · cases h
      · rintro ⟨_, ⟨⟩, hcount, hrest, rfl⟩
        dsimp only
        rw [if_neg hcount, if_pos hrest]
        rfl

/-- Where a numeral is read, a blank in front of it does not matter. -/
theorem read_of_blank_cons {base b : Nat} {t : Text} {z : Int} (hb : Text.isBlank b = true)
    (h : read base (b :: t) = .ok z) : read base t = .ok z := by
  cases hnumeral : Text.isNumeralBlank b with
  | true =>
      -- the blank is dropped
      have hdrop : (b :: t).dropWhile Text.isNumeralBlank = t.dropWhile Text.isNumeralBlank :=
        List.dropWhile_cons_of_pos hnumeral
      rw [read_eq_ok_iff] at h ⊢
      rwa [unsigned, isNegative, hdrop] at h
  | false =>
      -- it stays, and no digit comes first
      obtain ⟨hdecimal, -, -, -, hminus, hplus⟩ := blank_facts b (mem_blanks_of_isBlank hb)
      have hdrop : (b :: t).dropWhile Text.isNumeralBlank = b :: t :=
        List.dropWhile_cons_of_neg (by rw [hnumeral]; exact Bool.false_ne_true)
      have hsign : splitSign (b :: t) = (false, b :: t) := by
        rw [splitSign, if_neg hminus, if_neg hplus]
      have hmark : dropHexMark (b :: t) = b :: t := by
        cases t with
        | nil => rfl
        | cons x rest =>
            have hzero : Text.decimalValue? b ≠ some 0 := by
              rw [hdecimal]
              exact Option.some_ne_none 0 |>.symm
            rw [dropHexMark_cons_cons, if_neg fun h => hzero h.1]
      have hunsigned : unsigned base (b :: t) = b :: t := by
        rw [unsigned, hdrop, hsign]
        dsimp only
        rw [hmark, ite_self]
      obtain ⟨run, hscan, -⟩ := read_eq_ok_iff.mp h
      rw [hunsigned, scan, digitValue?_of_blank hb] at hscan
      cases hscan

/-- Where a numeral is read, blanks in front of it do not matter. -/
theorem read_of_blank_append {base : Nat} {blank t : Text} {z : Int} (hblank : Blank blank)
    (h : read base (blank ++ t) = .ok z) : read base t = .ok z := by
  induction blank with
  | nil => exact h
  | cons b rest ih =>
      have hrest : Blank rest := fun c hc => hblank c (List.mem_cons_of_mem b hc)
      exact ih hrest (read_of_blank_cons (hblank b List.mem_cons_self) h)

/-- Where a numeral is read, blanks behind it do not matter. -/
theorem read_of_append_blank {base : Nat} {t blank : Text} {z : Int} (hblank : Blank blank)
    (h : read base (t ++ blank) = .ok z) : read base t = .ok z := by
  obtain ⟨run, hscan, hcount, hrest, rfl⟩ := read_eq_ok_iff.mp h
  by_cases hempty : t.dropWhile Text.isNumeralBlank = []
  · -- of blanks alone nothing is read
    have hdrop : (t ++ blank).dropWhile Text.isNumeralBlank =
        blank.dropWhile Text.isNumeralBlank := by
      rw [List.dropWhile_append, hempty]
      rfl
    have hleft : Blank (blank.dropWhile Text.isNumeralBlank) := fun c hc =>
      hblank c (List.dropWhile_subset _ hc)
    rw [unsigned, hdrop, splitSign_of_blank hleft] at hscan
    dsimp only at hscan
    rw [dropHexMark_of_blank hleft, ite_self, scan_of_blank hleft] at hscan
    cases hscan
  · have hdrop : (t ++ blank).dropWhile Text.isNumeralBlank =
        t.dropWhile Text.isNumeralBlank ++ blank := by
      rw [List.dropWhile_append, if_neg (by rwa [List.isEmpty_iff])]
    have hsign := splitSign_append hempty blank
    have hunsigned : unsigned base (t ++ blank) = unsigned base t ++ blank := by
      rw [unsigned, unsigned, hdrop, hsign]
      dsimp only
      split
      · exact dropHexMark_append_blank hblank
      · rfl
    rw [hunsigned, scan_append_blank hblank] at hscan
    obtain ⟨run', hscan', rfl⟩ := Option.map_eq_some_iff.mp hscan
    rw [List.all_append, Bool.and_eq_true] at hrest
    refine read_eq_ok_iff.mpr ⟨run', hscan', hcount, hrest.1, ?_⟩
    rw [isNegative, isNegative, hdrop, hsign]

/-- A text is its stripped form between blanks. -/
theorem exists_blanks_strip (t : Text) :
    ∃ front back, t = front ++ (Text.strip t ++ back) ∧ Blank front ∧ Blank back := by
  have hblank : ∀ u : Text, Blank (u.takeWhile Text.isBlank) := fun u _ hc =>
    List.mem_takeWhile_imp hc
  refine ⟨t.takeWhile Text.isBlank,
    ((t.dropWhile Text.isBlank).reverse.takeWhile Text.isBlank).reverse, ?_, hblank t, ?_⟩
  · rw [Text.strip, Text.stripWith, Text.dropRightWhile, ← List.reverse_append,
      List.takeWhile_append_dropWhile, List.reverse_reverse, List.takeWhile_append_dropWhile]
  · exact fun c hc => hblank _ c (List.mem_reverse.mp hc)

/-- Between blanks, a text without any is found. -/
theorem strip_append_blank {front s back : Text} (hfront : Blank front) (hback : Blank back)
    (hs : ∀ c ∈ s, Text.isBlank c = false) (hne : s ≠ []) :
    Text.strip (front ++ (s ++ back)) = s := by
  have hkeep : ∀ t rest : Text, t ≠ [] → (∀ c ∈ t, Text.isBlank c = false) →
      (t ++ rest).dropWhile Text.isBlank = t ++ rest := by
    intro t rest ht hplain
    obtain ⟨c, t, rfl⟩ := List.exists_cons_of_ne_nil ht
    have hc : ¬Text.isBlank c = true := by
      rw [hplain c List.mem_cons_self]
      exact Bool.false_ne_true
    exact List.dropWhile_cons_of_neg hc
  have hreverse := hkeep s.reverse [] (mt List.reverse_eq_nil_iff.mp hne) fun c hc =>
    hs c (List.mem_reverse.mp hc)
  rw [List.append_nil] at hreverse
  rw [Text.strip, Text.stripWith, List.dropWhile_append_of_pos hfront, hkeep s back hne hs,
    Text.dropRightWhile, List.reverse_append,
    List.dropWhile_append_of_pos fun c hc => hback c (List.mem_reverse.mp hc), hreverse,
    List.reverse_reverse]

/-- **Blanks.** Where a text is read, so is its stripped form. -/
theorem read_strip {base : Nat} {t : Text} {z : Int} (h : read base t = .ok z) :
    read base (Text.strip t) = .ok z := by
  obtain ⟨front, back, ht, hfront, hback⟩ := exists_blanks_strip t
  rw [ht] at h
  exact read_of_append_blank hback (read_of_blank_append hfront h)

/-! ## Digits -/

/-- No letter is a decimal digit. -/
theorem decimalValue?_letter : ∀ c ≤ 0x7a, 0x41 ≤ c → Text.decimalValue? c = none := by
  decide

theorem decimalValue?_of_digit {c d : Nat} (h : digitValue? 10 c = some d) :
    Text.decimalValue? c = some d ∧ d < 10 := by
  rw [digitValue?] at h
  cases hdecimal : Text.decimalValue? c with
  | some d' =>
      rw [hdecimal] at h
      dsimp only at h
      split at h
      · next hlt =>
          cases h
          exact ⟨rfl, hlt⟩
      · cases h
  | none =>
      -- letters stand for ten and more
      rw [hdecimal] at h
      have hten : ¬(if 0x61 ≤ c ∧ c ≤ 0x7a then c - 0x57
          else if 0x41 ≤ c ∧ c ≤ 0x5a then c - 0x37 else 10) < 10 := by
        split
        · omega
        · split <;> omega
      dsimp only at h
      rw [if_neg hten] at h
      cases h

/-- A digit of base 10 is one of base 16, of the same value. -/
theorem digitValue?_sixteen {c d : Nat} (h : digitValue? 10 c = some d) :
    d < 10 ∧ digitValue? 16 c = some d := by
  obtain ⟨hdecimal, hlt⟩ := decimalValue?_of_digit h
  refine ⟨hlt, ?_⟩
  rw [digitValue?, hdecimal]
  exact if_pos (Nat.lt_trans hlt (by decide))

/-- The letters behind F are no digits. -/
theorem digitValue?_letter {base c : Nat} (hbase : base ≤ 16)
    (hc : 0x66 < c ∧ c ≤ 0x7a ∨ 0x46 < c ∧ c ≤ 0x5a) : digitValue? base c = none := by
  have hvalue : ¬(if 0x61 ≤ c ∧ c ≤ 0x7a then c - 0x57
      else if 0x41 ≤ c ∧ c ≤ 0x5a then c - 0x37 else base) < base := by
    split
    · omega
    · split <;> omega
  rw [digitValue?, decimalValue?_letter c (by omega) (by omega)]
  exact if_neg hvalue

/-- A text that is read as digits does not begin with a mark. -/
theorem dropHexMark_of_scan {base : Nat} {s : Text} {run : Run} (hbase : base ≤ 16)
    (h : scan base 0 0 true s = some run) (hrest : run.rest.all Text.isNumeralBlank = true) :
    dropHexMark s = s := by
  cases s with
  | nil => rfl
  | cons z s =>
      cases s with
      | nil => rfl
      | cons x rest =>
          rw [dropHexMark_cons_cons]
          split
          · next hmark =>
              -- the letter would be left over, and is no blank
              have hx : digitValue? base x = none := digitValue?_letter hbase (by omega)
              have hunderscore : x ≠ 0x5f := by omega
              rw [scan] at h
              cases hz : digitValue? base z with
              | none =>
                  rw [hz] at h
                  cases h
              | some d =>
                  rw [hz] at h
                  simp only [scan, hx, if_neg hunderscore] at h
                  cases h
                  rcases hmark.2 with rfl | rfl <;> cases hrest
          · rfl

/-- A text that begins with a digit has neither blanks nor a sign in front of it. -/
theorem unsigned_of_scan {base : Nat} {s : Text} {run : Run} (hbase : base ≤ 16)
    (h : scan base 0 0 true s = some run) (hrest : run.rest.all Text.isNumeralBlank = true) :
    unsigned base s = s ∧ isNegative s = false := by
  cases s with
  | nil => cases h
  | cons c s =>
      obtain ⟨d, hd⟩ : ∃ d, digitValue? base c = some d := by
        rw [scan] at h
        cases hd : digitValue? base c with
        | some d => exact ⟨d, rfl⟩
        | none =>
            rw [hd] at h
            cases h
      have hblank : ¬Text.isNumeralBlank c = true := fun hc => by
        rw [digitValue?_of_blank (isBlank_of_isNumeralBlank hc)] at hd
        cases hd
      have hminus : c ≠ 0x2d := by
        rintro rfl
        simp [digitValue?, Text.decimalValue?] at hd
      have hplus : c ≠ 0x2b := by
        rintro rfl
        simp [digitValue?, Text.decimalValue?] at hd
      have hsign : splitSign ((c :: s).dropWhile Text.isNumeralBlank) = (false, c :: s) := by
        rw [List.dropWhile_cons_of_neg hblank, splitSign, if_neg hminus, if_neg hplus]
      refine ⟨?_, by rw [isNegative, hsign]⟩
      rw [unsigned, hsign]
      dsimp only
      rw [dropHexMark_of_scan hbase h hrest, ite_self]

theorem foldl_digits (base : Nat) (ds : List Nat) :
    ds.foldl (fun value d => value * base + d) 0 = Nat.ofDigits base ds.reverse := by
  rw [Nat.ofDigits_eq_foldr, List.foldr_reverse]
  simp only [Nat.cast_id, Nat.mul_comm, Nat.add_comm]

/-- Where the same text is scanned in both bases, the same digits are seen. -/
theorem scan_both {s : Text} {value value' count count' : Nat} {gap : Bool} {run run' : Run}
    (h : scan 10 value count gap s = some run) (hrest : run.rest.all Text.isNumeralBlank = true)
    (h' : scan 16 value' count' gap s = some run') :
    ∃ ds : List Nat, (∀ d ∈ ds, d < 10) ∧ run.value = ds.foldl (fun n d => n * 10 + d) value ∧
      run'.value = ds.foldl (fun n d => n * 16 + d) value' := by
  induction s generalizing value value' count count' gap with
  | nil =>
      cases gap with
      | true => cases h
      | false =>
          cases h
          cases h'
          exact ⟨[], fun _ hd => absurd hd List.not_mem_nil, rfl, rfl⟩
  | cons c s ih =>
      rw [scan] at h h'
      cases hd : digitValue? 10 c with
      | some d =>
          obtain ⟨hlt, hd'⟩ := digitValue?_sixteen hd
          rw [hd] at h
          rw [hd'] at h'
          obtain ⟨ds, hds, hvalue, hvalue'⟩ := ih h h'
          exact ⟨d :: ds, List.forall_mem_cons.mpr ⟨hlt, hds⟩, hvalue, hvalue'⟩
      | none =>
          rw [hd] at h
          dsimp only at h
          split at h
          · cases h
          · next hgap =>
              split at h
              · next hunderscore =>
                  -- an underscore is passed in both bases
                  subst hunderscore
                  have hnone : digitValue? 16 0x5f = none := by decide
                  rw [hnone] at h'
                  dsimp only at h'
                  rw [if_neg hgap, if_pos rfl] at h'
                  exact ih h h'
              · next hunderscore =>
                  -- the digits end at a blank
                  cases h
                  rw [List.all_cons, Bool.and_eq_true] at hrest
                  have hblank := isBlank_of_isNumeralBlank hrest.1
                  rw [digitValue?_of_blank hblank] at h'
                  dsimp only at h'
                  rw [if_neg hgap, if_neg hunderscore] at h'
                  cases h'
                  exact ⟨[], fun _ hd => absurd hd List.not_mem_nil, rfl, rfl⟩

/-- **Two bases.** A text that is read in base 10 and in base 16 has one sign and the same digits in both
readings; they are listed with the lowest first. -/
theorem read_both {t : Text} {z z' : Int} (h : read 10 t = .ok z) (h' : read 16 t = .ok z') :
    ∃ ds : List Nat, (∀ d ∈ ds, d < 10) ∧ z = signed (isNegative t) (Nat.ofDigits 10 ds) ∧
      z' = signed (isNegative t) (Nat.ofDigits 16 ds) := by
  obtain ⟨run, hscan, -, hrest, rfl⟩ := read_eq_ok_iff.mp h
  obtain ⟨run', hscan', -, -, rfl⟩ := read_eq_ok_iff.mp h'
  have hten : unsigned 10 t = (splitSign (t.dropWhile Text.isNumeralBlank)).2 := rfl
  have hsixteen : unsigned 16 t = unsigned 10 t := by
    rw [hten] at hscan ⊢
    exact dropHexMark_of_scan (by decide) hscan hrest
  rw [hsixteen] at hscan'
  obtain ⟨ds, hds, hvalue, hvalue'⟩ := scan_both hscan hrest hscan'
  refine ⟨ds.reverse, fun d hd => hds d (List.mem_reverse.mp hd), ?_, ?_⟩
  · rw [hvalue, foldl_digits]
  · rw [hvalue', foldl_digits]

section Digits

variable {ds : List Nat} (hds : ∀ d ∈ ds, d < 10)

include hds

/-- The digits of a number in base 10, read in base 16. -/
theorem ofDigits_digits_ten :
    Nat.ofDigits 16 (Nat.digits 10 (Nat.ofDigits 10 ds)) = Nat.ofDigits 16 ds := by
  induction ds with
  | nil => rfl
  | cons d ds ih =>
      obtain ⟨hd, hds⟩ := List.forall_mem_cons.mp hds
      have ih := ih hds
      rw [Nat.ofDigits_cons, Nat.ofDigits_cons]
      by_cases hzero : d = 0 ∧ Nat.ofDigits 10 ds = 0
      · -- zeros in front are not among the digits
        rw [hzero.2] at ih ⊢
        rw [hzero.1, ← ih]
        rfl
      · rw [Nat.digits_add 10 (by decide) d _ hd (by omega), Nat.ofDigits_cons, ih]

/-- Digits that are read in both bases denote the same number exactly below ten. -/
theorem ofDigits_eq_iff_lt_ten :
    Nat.ofDigits 16 ds = Nat.ofDigits 10 ds ↔ Nat.ofDigits 10 ds < 10 := by
  constructor
  · intro h
    cases ds with
    | nil => decide
    | cons d ds =>
        have hd : d < 10 := hds d List.mem_cons_self
        have hle : Nat.ofDigits 10 ds ≤ Nat.ofDigits 16 ds := Nat.ofDigits_monotone ds (by decide)
        rw [Nat.ofDigits_cons, Nat.ofDigits_cons] at h
        rw [Nat.ofDigits_cons]
        omega
  · intro h
    rw [← ofDigits_digits_ten hds]
    generalize Nat.ofDigits 10 ds = n at h
    interval_cases n <;> rfl

end Digits

/-! ## Written numbers -/

theorem toNat_of_isDigit {c : Char} (h : c.isDigit = true) : 0x30 ≤ c.toNat ∧ c.toNat ≤ 0x39 := by
  simpa [Char.isDigit, UInt32.le_iff_toNat_le] using h

/-- The code points of a text are digits of a base, of these values. -/
def Digits (base : Nat) (t : Text) (ds : List Nat) : Prop :=
  List.Forall₂ (fun c d => digitValue? base c = some d) t ds

theorem exists_digitValue?_of_digits {base : Nat} {t : Text} {ds : List Nat} (h : Digits base t ds)
    {c : Nat} (hc : c ∈ t) : ∃ d, digitValue? base c = some d := by
  induction h with
  | nil => exact absurd hc List.not_mem_nil
  | cons hvalue _ ih =>
      rcases List.mem_cons.mp hc with rfl | hc
      · exact ⟨_, hvalue⟩
      · exact ih hc

theorem not_isBlank_of_digits {base : Nat} {t : Text} {ds : List Nat} (h : Digits base t ds) {c : Nat}
    (hc : c ∈ t) : Text.isBlank c = false := by
  obtain ⟨d, hd⟩ := exists_digitValue?_of_digits h hc
  rw [← Bool.not_eq_true]
  intro hblank
  rw [digitValue?_of_blank hblank] at hd
  cases hd

/-- A run of digits is read to its end. -/
theorem scan_digits {base : Nat} {t : Text} {ds : List Nat} (h : Digits base t ds) (value count : Nat)
    (gap : Bool) (hgap : gap = true → t ≠ []) :
    scan base value count gap t =
      some ⟨ds.foldl (fun n d => n * base + d) value, count + t.length, []⟩ := by
  induction h generalizing value count gap with
  | nil =>
      cases gap with
      | true => exact absurd rfl (hgap rfl)
      | false => rfl
  | cons hc _ ih =>
      rw [scan, hc]
      dsimp only
      rw [ih _ _ false fun hfalse => absurd hfalse Bool.false_ne_true, List.foldl_cons, List.length_cons,
        Nat.add_assoc, Nat.add_comm 1]

/-- **Digits.** A text of digits is read as their value; in base 10 there may not be too many. -/
theorem read_digits {base : Nat} {t : Text} {ds : List Nat} (hbase : base ≤ 16) (h : Digits base t ds)
    (hne : t ≠ []) (hlimit : base = 10 → t.length ≤ digitLimit) :
    read base t = .ok (ds.foldl (fun n d => n * base + d) 0 : Nat) := by
  have hscan := scan_digits h 0 0 true fun _ => hne
  -- a digit is neither a blank nor a sign, and two of them are no mark
  obtain ⟨hunsigned, hpositive⟩ := unsigned_of_scan hbase hscan rfl
  have hscan := (congrArg (scan base 0 0 true) hunsigned).trans hscan
  refine read_eq_ok_iff.mpr ⟨_, hscan, ?_, rfl, by rw [hpositive]; rfl⟩
  rintro ⟨hten, hlong⟩
  have hshort := hlimit hten
  dsimp only at hlong
  omega

/-- Behind the mark of base 16 digits are read however many there are. -/
theorem read_marked {t : Text} {ds : List Nat} (h : Digits 16 t ds) (hne : t ≠ []) :
    read 16 (0x30 :: 0x78 :: t) = .ok (ds.foldl (fun n d => n * 16 + d) 0 : Nat) := by
  have hunsigned : unsigned 16 (0x30 :: 0x78 :: t) = t := by
    obtain ⟨c, t, rfl⟩ := List.exists_cons_of_ne_nil hne
    obtain ⟨d, hd⟩ := exists_digitValue?_of_digits h List.mem_cons_self
    -- one underscore would be passed behind the mark
    have hunderscore : c ≠ 0x5f := by
      rintro rfl
      cases hd
    exact if_neg hunderscore
  have hscan := scan_digits h 0 0 true fun _ => hne
  rw [← hunsigned] at hscan
  refine read_eq_ok_iff.mpr ⟨_, hscan, ?_, rfl, rfl⟩
  rintro ⟨hten, -⟩
  cases hten

/-- The characters of a number are digits that add up to it. -/
theorem exists_digits_toDigits (base : Nat) (hbase : 1 < base) (hsixteen : base ≤ 16) (n : Nat) :
    ∃ ds, Digits base ((Nat.toDigits base n).map Char.toNat) ds ∧
      ds.foldl (fun m d => m * base + d) 0 = n := by
  have hvalue : ∀ base ≤ 16, ∀ d < base, digitValue? base (Nat.digitChar d).toNat = some d := by decide
  induction n using Nat.strong_induction_on with
  | _ n ih =>
      by_cases hn : n < base
      · refine ⟨[n], ?_, by simp⟩
        rw [Nat.toDigits_of_lt_base hn]
        exact .cons (hvalue base hsixteen n hn) .nil
      · -- the last digit is the remainder, the others are those of the quotient
        have hle : base ≤ n := Nat.not_lt.mp hn
        have hlast : n % base < base := Nat.mod_lt n (by omega)
        obtain ⟨ds, hdigits, hsum⟩ := ih (n / base) (Nat.div_lt_self (by omega) hbase)
        refine ⟨ds ++ [n % base], ?_, ?_⟩
        · rw [Nat.toDigits_of_base_le hbase hle, List.map_append]
          exact List.rel_append hdigits (.cons (hvalue base hsixteen _ hlast) .nil)
        · rw [List.foldl_append, hsum, List.foldl_cons, List.foldl_nil]
          exact Nat.div_add_mod' n base

/-- A number within the limit is read from its decimal text. -/
theorem read_toDigits {n : Nat} (h : n < 10 ^ digitLimit) :
    read 10 ((Nat.toDigits 10 n).map Char.toNat) = .ok n := by
  have hlength : (Nat.toDigits 10 n).length ≤ digitLimit :=
    (Nat.length_toDigits_le_iff (by decide) (by decide)).mpr h
  obtain ⟨ds, hdigits, hsum⟩ := exists_digits_toDigits 10 (by decide) (by decide) n
  rw [read_digits (by decide) hdigits (mt List.map_eq_nil_iff.mp Nat.toDigits_ne_nil), hsum]
  intro _
  rwa [List.length_map]

end ArrowCircuit.Numeral
