import ArrowCircuit.Json.Reader
import ArrowCircuit.Text.Escaped
import Mathlib.Data.List.Chain

/-!
# What an ASCII string literal tells

An ASCII string literal shows a text as UTF-16 units, each as a character or as an escape.  The units
can be read back one by one, so two literals are equal exactly if the texts have the same units.  That
is less than the text: a code point above `0xffff` is shown like the two surrogates of its pair.  Texts
that keep the two halves of a pair apart are told by their units.
-/

namespace ArrowCircuit.Text

/-! ## Units -/

/-- The UTF-16 units of a code point. -/
def pointUnits (c : Nat) : List Nat :=
  if c < 0x10000 then [c] else [(surrogatePair c).1, (surrogatePair c).2]

/-- The UTF-16 units of a text. -/
def units (t : Text) : List Nat := t.flatMap pointUnits

/-- Every code point of the text is one. -/
def InRange (t : Text) : Prop := ∀ c ∈ t, c < 0x110000

theorem lt_of_mem_units {t : Text} (h : InRange t) : ∀ u ∈ units t, u < 0x10000 := by
  intro u hu
  obtain ⟨c, hc, hu⟩ := List.mem_flatMap.mp hu
  have hlt := h c hc
  unfold pointUnits at hu
  split at hu
  · rename_i hsmall
    rw [List.mem_singleton.mp hu]
    exact hsmall
  · simp only [surrogatePair, List.mem_cons, List.not_mem_nil, or_false] at hu
    omega

/-- A unit that is the half of a pair is shown as an escape. -/
theorem escapedPoint_surrogate {u : Nat} (h : 0xd800 ≤ u) (hlt : u < 0x10000) :
    escapedPoint u = unitEscape u := by
  have hshort : shortEscape? u = none := by
    unfold shortEscape?
    iterate 7 rw [if_neg (by omega)]
  rw [escapedPoint, hshort]
  dsimp only
  rw [if_neg (by omega), if_pos hlt]

theorem escapedPoint_eq_units {c : Nat} (h : c < 0x110000) :
    escapedPoint c = (pointUnits c).flatMap escapedPoint := by
  unfold pointUnits
  split
  · rw [List.flatMap_singleton]
  · rename_i hlarge
    have hshort : shortEscape? c = none := by
      unfold shortEscape?
      iterate 7 rw [if_neg (by omega)]
    have hlead := escapedPoint_surrogate (u := (surrogatePair c).1)
      (by unfold surrogatePair; omega) (by unfold surrogatePair; omega)
    have htrail := escapedPoint_surrogate (u := (surrogatePair c).2)
      (by unfold surrogatePair; omega) (by unfold surrogatePair; omega)
    rw [List.flatMap_cons, List.flatMap_singleton, hlead, htrail, escapedPoint, hshort]
    dsimp only
    rw [if_neg (by omega), if_neg hlarge]

/-- A literal shows the units of its text. -/
theorem flatMap_escapedPoint {t : Text} (h : InRange t) :
    t.flatMap escapedPoint = (units t).flatMap escapedPoint := by
  induction t with
  | nil => rfl
  | cons c t ih =>
      obtain ⟨hc, ht⟩ := List.forall_mem_cons.mp h
      rw [units, List.flatMap_cons, List.flatMap_cons, List.flatMap_append,
        ← escapedPoint_eq_units hc, ih ht, units]

/-! ## Reading units back -/

/-- Reads one unit of a literal. -/
def takeUnit : List Char → Option (Nat × List Char)
  | '\\' :: 'u' :: rest => Json.readUnit rest
  | '\\' :: letter :: rest => (Json.escapeLetter? letter).map fun u => (u, rest)
  | c :: rest => some (c.toNat, rest)
  | [] => none

theorem hexValue?_hexDigit : ∀ d < 16, Json.hexValue? (hexDigit d) = some d := by decide

theorem readUnit_hexDigits {u : Nat} (h : u < 0x10000) (rest : List Char) :
    Json.readUnit (hexDigits 4 u ++ rest) = some (u, rest) := by
  have hdigit : ∀ n, Json.hexValue? (hexDigit (n % 16)) = some (n % 16) :=
    fun n => hexValue?_hexDigit _ (Nat.mod_lt _ (by decide))
  simp only [hexDigits, List.nil_append, List.cons_append, Json.readUnit, hdigit,
    Option.bind_eq_bind, Option.bind_some]
  congr 2
  omega

theorem takeUnit_short {u : Nat} {e : List Char} (h : shortEscape? u = some e) (rest : List Char) :
    takeUnit (e ++ rest) = some (u, rest) := by
  unfold shortEscape? at h
  repeat' split at h
  all_goals first
    | (cases h; subst_vars; rfl)
    | cases h

theorem takeUnit_cons {c : Char} (h : c ≠ '\\') (rest : List Char) :
    takeUnit (c :: rest) = some (c.toNat, rest) := by
  unfold takeUnit
  split
  · rename_i heq
    exact absurd (List.cons.inj heq).1 h
  · rename_i heq
    exact absurd (List.cons.inj heq).1 h
  · rename_i heq
    obtain ⟨rfl, rfl⟩ := List.cons.inj heq
    rfl
  · rename_i heq
    cases heq

theorem toNat_charOf : ∀ u < 0x7f, (charOf u).toNat = u := by decide

/-- **Units.** A unit of a literal is read back, whatever follows it. -/
theorem takeUnit_escapedPoint {u : Nat} (h : u < 0x10000) (rest : List Char) :
    takeUnit (escapedPoint u ++ rest) = some (u, rest) := by
  unfold escapedPoint
  split
  · rename_i e he
    exact takeUnit_short he rest
  · rename_i hshort
    split
    · rename_i hprintable
      have hchar := toNat_charOf u hprintable.2
      have hne : charOf u ≠ '\\' := by
        intro heq
        rw [heq] at hchar
        subst hchar
        cases hshort
      rw [List.cons_append, List.nil_append, takeUnit_cons hne, hchar]
    · exact readUnit_hexDigits h rest

/-- No unit looks like the quote that ends a literal. -/
theorem escapedPoint_ne_quote {u : Nat} (h : u < 0x10000) (rest rest' : List Char) :
    escapedPoint u ++ rest ≠ '"' :: rest' := by
  intro heq
  have hread := takeUnit_escapedPoint h rest
  rw [heq, takeUnit_cons (by decide), Option.some_inj, Prod.mk.injEq] at hread
  obtain ⟨rfl, rfl⟩ := hread
  simp [escapedPoint, shortEscape?] at heq

/-- **Literals.** The units and what follows the closing quote can be told from the characters. -/
theorem flatMap_escapedPoint_inj {us us' : List Nat} {rest rest' : List Char}
    (hus : ∀ u ∈ us, u < 0x10000) (hus' : ∀ u ∈ us', u < 0x10000)
    (h : us.flatMap escapedPoint ++ '"' :: rest = us'.flatMap escapedPoint ++ '"' :: rest') :
    us = us' ∧ rest = rest' := by
  induction us generalizing us' with
  | nil =>
      cases us' with
      | nil => exact ⟨rfl, (List.cons.inj h).2⟩
      | cons u' us' =>
          rw [List.flatMap_nil, List.nil_append, List.flatMap_cons, List.append_assoc] at h
          exact absurd h.symm (escapedPoint_ne_quote (hus' u' List.mem_cons_self) _ _)
  | cons u us ih =>
      obtain ⟨hu, htail⟩ := List.forall_mem_cons.mp hus
      cases us' with
      | nil =>
          rw [List.flatMap_nil, List.nil_append, List.flatMap_cons, List.append_assoc] at h
          exact absurd h (escapedPoint_ne_quote hu _ _)
      | cons u' us' =>
          obtain ⟨hu', htail'⟩ := List.forall_mem_cons.mp hus'
          rw [List.flatMap_cons, List.flatMap_cons, List.append_assoc, List.append_assoc] at h
          have hread := congrArg takeUnit h
          rw [takeUnit_escapedPoint hu, takeUnit_escapedPoint hu', Option.some_inj,
            Prod.mk.injEq] at hread
          obtain ⟨rfl, hrest⟩ := hread
          obtain ⟨rfl, rfl⟩ := ih htail htail' hrest
          exact ⟨rfl, rfl⟩

/-! ## Joining units -/

/-- The first unit of a pair. -/
def isLead (u : Nat) : Prop := 0xd800 ≤ u ∧ u < 0xdc00

/-- The second unit of a pair. -/
def isTrail (u : Nat) : Prop := 0xdc00 ≤ u ∧ u < 0xe000

instance (u : Nat) : Decidable (isLead u) := inferInstanceAs (Decidable (_ ∧ _))

instance (u : Nat) : Decidable (isTrail u) := inferInstanceAs (Decidable (_ ∧ _))

/-- The text with the given units, in which every pair is joined. -/
def join : List Nat → Text
  | lead :: trail :: rest =>
    if isLead lead ∧ isTrail trail then
      (0x10000 + (lead - 0xd800) * 0x400 + (trail - 0xdc00)) :: join rest
    else lead :: join (trail :: rest)
  | rest => rest

/-- No two neighbours in the text are the halves of a pair. -/
def Joined (t : Text) : Prop := t.IsChain fun a b => ¬ (isLead a ∧ isTrail b)

theorem join_cons {u : Nat} {us : List Nat} (h : ∀ v ∈ us.head?, ¬ (isLead u ∧ isTrail v)) :
    join (u :: us) = u :: join us := by
  cases us with
  | nil => rfl
  | cons v us => rw [join, if_neg (h v rfl)]

theorem join_pair {c : Nat} (h : 0x10000 ≤ c) (hc : c < 0x110000) (us : List Nat) :
    join ((surrogatePair c).1 :: (surrogatePair c).2 :: us) = c :: join us := by
  have hpair : isLead (surrogatePair c).1 ∧ isTrail (surrogatePair c).2 := by
    unfold isLead isTrail surrogatePair
    omega
  have hpoint :
      0x10000 + ((surrogatePair c).1 - 0xd800) * 0x400 + ((surrogatePair c).2 - 0xdc00) = c := by
    unfold surrogatePair
    omega
  rw [join, if_pos hpair, hpoint]

/-- The first unit of a text is the second half of a pair only if its first code point is. -/
theorem isTrail_of_head_units {c u : Nat} {t : Text} (hc : c < 0x110000)
    (hu : u ∈ (units (c :: t)).head?) (htrail : isTrail u) : isTrail c := by
  rw [units, List.flatMap_cons, pointUnits] at hu
  split at hu
  · cases hu
    exact htrail
  · cases hu
    unfold isTrail surrogatePair at htrail
    omega

/-- **Texts.** A text in which no two neighbours are the halves of a pair is told by its units. -/
theorem join_units {t : Text} (hrange : InRange t) (h : Joined t) : join (units t) = t := by
  induction t with
  | nil => rfl
  | cons c t ih =>
      obtain ⟨hc, ht⟩ := List.forall_mem_cons.mp hrange
      obtain ⟨hfirst, htail⟩ := List.isChain_cons.mp h
      have hrest : join (units t) = t := ih ht htail
      have hunits : units (c :: t) = pointUnits c ++ units t := List.flatMap_cons
      rw [hunits, pointUnits]
      split
      · rw [List.singleton_append, join_cons, hrest]
        rintro v hv ⟨hlead, htrail⟩
        cases t with
        | nil => cases hv
        | cons d t =>
            have hd := (List.forall_mem_cons.mp ht).1
            exact hfirst d rfl ⟨hlead, isTrail_of_head_units hd hv htrail⟩
      · rw [List.cons_append, List.singleton_append, join_pair (by omega) hc, hrest]

end ArrowCircuit.Text
