import ArrowCircuit.Proofs.Script.Names

/-!
# Tokens at the front of a text

What is read at the front of a text whose first token is known: a name, a number or a symbol, possibly
behind a space.  The reader takes the longest token that it can, so a name or a number has to be followed
by something that cannot continue it (`breaks`).

`Lexes` leaves out where the token stands, and `State.Ahead` is a state of the parser of which only the
text ahead is known.  Behind a text of which this much is known, consuming a token succeeds and leads to
such a state again.
-/

namespace ArrowCircuit.Script

/-! ## Reading one token -/

/-- Behind `context` the text starts with a token of this kind and spelling, and `rest` is behind it. -/
def Lexes (context : Context) (text : List Char) (t : Terminal) (lexeme rest : List Char) : Prop :=
  ∀ last position, ∃ place cursor, cursor.rest = rest ∧
    Cursor.next context last ⟨text, position⟩ = .ok (⟨t, lexeme, place⟩, cursor)

theorem rest_advance (n : Nat) (cursor : Cursor) : (cursor.advance n).rest = cursor.rest.drop n := by
  induction n generalizing cursor with
  | zero => rfl
  | succ n ih =>
      obtain ⟨text, position⟩ := cursor
      cases text with
      | nil =>
          rw [Cursor.advance, ih]
          simp
      | cons c rest => exact ih ⟨rest, position.after c⟩

theorem next_space (context : Context) (last : Option Token) (text : List Char) (position : Position) :
    Cursor.next context last ⟨' ' :: text, position⟩ =
      Cursor.next context last ⟨text, position.after ' '⟩ :=
  rfl

variable {context : Context} {text word rest lexeme : List Char} {t : Terminal}

theorem Lexes.space (h : Lexes context text t lexeme rest) :
    Lexes context (' ' :: text) t lexeme rest := by
  intro last position
  rw [next_space]
  exact h last _

theorem lexes_nil (context : Context) : Lexes context [] .endOfText [] [] :=
  fun _ _ => ⟨_, _, rfl, rfl⟩

/-- The token that is found at the front, where there is nothing to skip. -/
theorem lexes_of_lexeme? (hskip : ignoredLength (lexeme ++ rest) = 0)
    (h : lexeme? context.accepts (lexeme ++ rest) = some (t, lexeme.length)) :
    Lexes context (lexeme ++ rest) t lexeme rest := by
  intro last position
  -- there is nothing to skip, so the fuel does not matter
  have hstay : ∀ fuel, Cursor.skipIgnored fuel ⟨lexeme ++ rest, position⟩ = ⟨lexeme ++ rest, position⟩ := by
    intro fuel
    cases fuel with
    | zero => rfl
    | succ fuel =>
        rw [Cursor.skipIgnored]
        dsimp only
        rw [hskip]
  cases htext : lexeme ++ rest with
  | nil =>
      rw [htext] at h
      cases h
  | cons c cs =>
      have hrest : (Cursor.advance lexeme.length ⟨c :: cs, position⟩).rest = rest := by
        rw [rest_advance, ← htext, List.drop_left]
      have htake : (c :: cs).take lexeme.length = lexeme := by rw [← htext, List.take_left]
      refine ⟨position, Cursor.advance lexeme.length ⟨c :: cs, position⟩, hrest, ?_⟩
      rw [htext] at h hstay
      rw [Cursor.next]
      simp only [hstay, h, htake]

theorem lexes_symbol {c : Char} (hskip : ignoredLength (c :: rest) = 0)
    (h : lexeme? context.accepts (c :: rest) = some (t, 1)) : Lexes context (c :: rest) t [c] rest := by
  have hsymbol : Lexes context ([c] ++ rest) t [c] rest := lexes_of_lexeme? hskip h
  exact hsymbol

theorem ignoredLength_cons {c : Char} (hslash : c ≠ '/') (hspace : isSpace c = false) (rest : List Char) :
    ignoredLength (c :: rest) = 0 := by
  unfold ignoredLength
  split
  · exact absurd (List.cons.inj ‹_›).1 hslash
  · exact absurd (List.cons.inj ‹_›).1 hslash
  · rename_i heq
    rw [← (List.cons.inj heq).1, hspace]
    rfl
  · rfl

/-! ## Names and numbers -/

/-- A word that does not start with a digit. -/
def isName : List Char → Bool
  | [] => false
  | c :: rest => isNameStart c && rest.all isNamePart

/-- The text does not continue a name or a number. -/
def breaks : List Char → Bool
  | [] => true
  | c :: _ => !isNamePart c

/-- What a word is made of stops where something else comes. -/
theorem takeWhile_append_of_breaks {p : Char → Bool} (hp : ∀ c, p c = true → isNamePart c = true)
    (hword : ∀ c ∈ word, p c = true) (hrest : breaks rest = true) : (word ++ rest).takeWhile p = word := by
  have hstop : rest.takeWhile p = [] := by
    cases rest with
    | nil => rfl
    | cons c rest =>
        refine List.takeWhile_cons_of_neg fun hc => ?_
        rw [breaks, hp c hc] at hrest
        cases hrest
  rw [List.takeWhile_append_of_pos hword, hstop, List.append_nil]

theorem ignoredLength_of_isNamePart {c : Char} (h : isNamePart c = true) (rest : List Char) :
    ignoredLength (c :: rest) = 0 := by
  refine ignoredLength_cons ?_ ?_ rest
  · rintro rfl
    exact absurd h (by decide)
  · rw [Bool.eq_false_iff]
    intro hspace
    simp only [isSpace, Bool.or_eq_true, beq_iff_eq] at hspace
    rcases hspace with (((rfl | rfl) | rfl) | rfl) | rfl <;> exact absurd h (by decide)

/-- A name is read where no keyword is that is spelled like it. -/
theorem lexes_name (hword : isName word = true) (hrest : breaks rest = true)
    (haccepts : context.accepts .name = true)
    (hkeyword : ∀ k ∈ Terminal.keywords, k.1.toList = word → context.accepts k.2 = false) :
    Lexes context (word ++ rest) .name word rest := by
  cases word with
  | nil => cases hword
  | cons c cs =>
      rw [isName, Bool.and_eq_true, List.all_eq_true] at hword
      obtain ⟨hstart, hparts⟩ := hword
      have hpart : isNamePart c = true := by rw [isNamePart, hstart, Bool.true_or]
      have htake : (cs ++ rest).takeWhile isNamePart = cs :=
        takeWhile_append_of_breaks (fun _ h => h) hparts hrest
      -- a keyword of this spelling would be taken first
      have hfind : Terminal.keywords.find?
          (fun k => k.1.toList == c :: cs && context.accepts k.2) = none := by
        refine List.find?_eq_none.mpr fun k hk h => ?_
        rw [Bool.and_eq_true, beq_iff_eq] at h
        rw [hkeyword k hk h.1] at h
        exact absurd h.2 Bool.false_ne_true
      refine lexes_of_lexeme? (ignoredLength_of_isNamePart hpart _) ?_
      simp only [List.cons_append, lexeme?, hstart, if_true, htake, wordTerminal?, hfind, haccepts,
        Option.map_some]

theorem isNameStart_of_isDecimal {c : Char} (h : isDecimal c = true) : isNameStart c = false := by
  have hnine : c ≤ '9' := by
    rw [isDecimal, Bool.and_eq_true, decide_eq_true_eq, decide_eq_true_eq] at h
    exact h.2
  have hlower : ¬ 'a' ≤ c := fun ha => absurd (Char.le_trans ha hnine) (by decide)
  have hupper : ¬ 'A' ≤ c := fun ha => absurd (Char.le_trans ha hnine) (by decide)
  have hunderscore : c ≠ '_' := by
    rintro rfl
    exact absurd h (by decide)
  have hdollar : c ≠ '$' := by
    rintro rfl
    exact absurd h (by decide)
  simp [isNameStart, hlower, hupper, hunderscore, hdollar]

theorem isNamePart_of_isDecimal {c : Char} (h : isDecimal c = true) : isNamePart c = true := by
  rw [isNamePart, h, Bool.or_true]

theorem bigMark_of_breaks (hrest : breaks rest = true) : bigMark rest = 0 := by
  unfold bigMark
  split
  · cases hrest
  · rfl

/-- A number is read up to its length. -/
theorem lexes_numeral {c : Char} {digits : List Char} (hc : isDecimal c = true)
    (hlength : numberLength (c :: digits ++ rest) = (c :: digits).length)
    (haccepts : context.accepts .number = true) :
    Lexes context (c :: digits ++ rest) .number (c :: digits) rest := by
  refine lexes_of_lexeme? (ignoredLength_of_isNamePart (isNamePart_of_isDecimal hc) _) ?_
  rw [List.cons_append] at hlength ⊢
  rw [lexeme?, isNameStart_of_isDecimal hc, if_neg Bool.false_ne_true, if_pos hc, if_pos haccepts, hlength]

/-- The decimal digits of a number are one token: neither the mark of base 16 nor that of a big integer
follows them. -/
theorem numberLength_append {digits : List Char} (hdigits : ∀ c ∈ digits, isDecimal c = true)
    (hrest : breaks rest = true) : numberLength (digits ++ rest) = digits.length := by
  have htake : (digits ++ rest).takeWhile isDecimal = digits :=
    takeWhile_append_of_breaks (fun _ => isNamePart_of_isDecimal) hdigits hrest
  -- what stands behind a zero is a digit, or cannot be in a number
  have hsecond : ∀ x tail, digits ++ rest = '0' :: x :: tail → ¬ (x = 'x' ∨ x = 'X') := by
    intro x tail htext hx
    have hmem : x ∈ digits ∨ breaks (x :: tail) = true := by
      cases digits with
      | nil =>
          rw [List.nil_append] at htext
          rw [htext] at hrest
          cases hrest
      | cons c digits =>
          obtain ⟨-, htail⟩ := List.cons.inj htext
          cases digits with
          | nil => exact .inr (htail ▸ hrest)
          | cons d digits =>
              refine .inl (List.mem_cons_of_mem c ?_)
              rw [(List.cons.inj htail).1]
              exact List.mem_cons_self
    rcases hmem with hmem | hmem
    · have hdecimal := hdigits x hmem
      rcases hx with rfl | rfl <;> exact absurd hdecimal (by decide)
    · rcases hx with rfl | rfl <;> cases hmem
  unfold numberLength
  dsimp only
  rw [htake, List.drop_left, bigMark_of_breaks hrest, Nat.add_zero]
  split
  · rename_i x tail htext
    exact if_neg fun h => hsecond x tail htext h.1
  · rfl

theorem lexes_number (n : Nat) (hrest : breaks rest = true) (haccepts : context.accepts .number = true) :
    Lexes context (Nat.toDigits 10 n ++ rest) .number (Nat.toDigits 10 n) rest := by
  have hdigits : ∀ c ∈ Nat.toDigits 10 n, isDecimal c = true := fun c hc =>
    Nat.isDigit_of_mem_toDigits (by decide) (by decide) hc
  have hlength := numberLength_append hdigits hrest
  cases hdec : Nat.toDigits 10 n with
  | nil => exact absurd hdec Nat.toDigits_ne_nil
  | cons c cs =>
      rw [hdec] at hlength hdigits
      exact lexes_numeral (hdigits c List.mem_cons_self) hlength haccepts

theorem isNamePart_of_isHex {c : Char} (h : isHex c = true) : isNamePart c = true := by
  simp only [isHex, Bool.or_eq_true, Bool.and_eq_true, decide_eq_true_eq] at h
  rcases h with (h | ⟨ha, hf⟩) | ⟨ha, hf⟩
  · exact isNamePart_of_isDecimal h
  · have hz : c ≤ 'z' := Char.le_trans hf (by decide)
    simp [isNamePart, isNameStart, ha, hz]
  · have hz : c ≤ 'Z' := Char.le_trans hf (by decide)
    simp [isNamePart, isNameStart, ha, hz]

theorem isHex_of_mem_toDigits {n : Nat} {c : Char} (hc : c ∈ Nat.toDigits 16 n) : isHex c = true := by
  have hdigit : ∀ d < 16, isHex (Nat.digitChar d) = true := by decide
  induction n using Nat.strongRecOn with
  | ind n ih =>
      by_cases hn : n < 16
      · rw [Nat.toDigits_of_lt_base hn, List.mem_singleton] at hc
        rw [hc]
        exact hdigit n hn
      · rw [Nat.toDigits_of_base_le (by decide) (Nat.not_lt.mp hn), List.mem_append,
          List.mem_singleton] at hc
        rcases hc with hc | rfl
        · exact ih (n / 16) (by omega) hc
        · exact hdigit _ (Nat.mod_lt n (by decide))

/-- Behind the mark of base 16 the hexadecimal digits belong to the token. -/
theorem lexes_hex (n : Nat) (hrest : breaks rest = true) (haccepts : context.accepts .number = true) :
    Lexes context ('0' :: 'x' :: Nat.toDigits 16 n ++ rest) .number ('0' :: 'x' :: Nat.toDigits 16 n)
      rest := by
  have htake : (Nat.toDigits 16 n ++ rest).takeWhile isHex = Nat.toDigits 16 n :=
    takeWhile_append_of_breaks (fun _ => isNamePart_of_isHex) (fun _ => isHex_of_mem_toDigits) hrest
  have hne : (Nat.toDigits 16 n).length ≠ 0 := mt List.length_eq_zero_iff.mp Nat.toDigits_ne_nil
  refine lexes_numeral (by decide) ?_ haccepts
  rw [List.cons_append, List.cons_append, numberLength, htake, if_pos ⟨.inl rfl, hne⟩, List.drop_left, bigMark_of_breaks hrest, List.length_cons,
    List.length_cons]
  omega

/-! ## States -/

/-- The state that the parser is in once it has read a token of the text behind `context`. -/
def State.Ahead (context : Context) (text : List Char) (s : State) : Prop :=
  ∃ last position, Cursor.next context last ⟨text, position⟩ = .ok (s.token, s.cursor)

variable {s : State}

theorem State.Ahead.of_space (h : s.Ahead context (' ' :: text)) : s.Ahead context text := by
  obtain ⟨last, position, hnext⟩ := h
  exact ⟨last, position.after ' ', hnext⟩

/-- What is known of the text is known of the token. -/
theorem Lexes.token (h : Lexes context text t lexeme rest) (hs : s.Ahead context text) :
    s.terminal = t ∧ s.token.lexeme = lexeme ∧ s.cursor.rest = rest := by
  obtain ⟨last, position, hnext⟩ := hs
  obtain ⟨place, cursor, hrest, hlexes⟩ := h last position
  obtain ⟨htoken, hcursor⟩ := Prod.mk.inj (Except.ok.inj (hnext.symm.trans hlexes))
  rw [State.terminal, htoken, hcursor]
  exact ⟨rfl, rfl, hrest⟩

/-- A token is consumed if there is one behind it. -/
theorem Lexes.consume (h : Lexes context text t lexeme rest) (hs : s.cursor.rest = text) :
    ∃ s', s.consume context = .ok s' ∧ s'.Ahead context text := by
  obtain ⟨token, behind, position⟩ := s
  cases hs
  obtain ⟨place, cursor, -, hnext⟩ := h (some token) position
  refine ⟨⟨⟨t, lexeme, place⟩, cursor⟩, ?_, some token, position, hnext⟩
  rw [State.consume]
  dsimp only
  rw [hnext]

/-- The same for a token that is expected. -/
theorem Lexes.expect (h : Lexes context text t lexeme rest) (hs : s.cursor.rest = text) {kind : Terminal}
    (hkind : s.terminal = kind) :
    ∃ s', s.expect kind context = .ok s' ∧ s'.Ahead context text := by
  rw [State.expect, if_pos hkind]
  exact h.consume hs

end ArrowCircuit.Script
