import ArrowCircuit.Circuit.Noir
import ArrowCircuit.Proofs.Script.Names
import ArrowCircuit.Proofs.Text.Escaped

/-!
# Chains of operands

The text of an expression is a chain of operands with operators between them.  An operand is a word, a
string literal, an array, a choice or a group in parentheses, with signs before it and with elements,
calls and methods behind it.  How tightly the operators bind is not a part of this reading.  Every text
has one reading at most, whatever follows it: two chains with the same characters are the same chain.
-/

namespace ArrowCircuit.Noir

open Script

/-! ## Readings -/

mutual

/-- What an operand starts with. -/
inductive Core where
  /-- A name or a number. -/
  | word (characters : List Char)
  /-- A string literal, by its UTF-16 units. -/
  | quoted (units : List Nat)
  | array (items : Items)
  | choice (condition consequent alternate : Chain)
  /-- A chain in parentheses. -/
  | group (inner : Chain)

/-- What follows the start of an operand. -/
inductive Suffixes where
  | done
  | index (position : Chain) (more : Suffixes)
  | arguments (items : Items) (more : Suffixes)
  | method (name : List Char) (items : Items) (more : Suffixes)

/-- An operand, with the operators before it. -/
inductive Operand where
  | plain (core : Core) (suffixes : Suffixes)
  | signed (op : UnaryOp) (operand : Operand)

/-- Operands with operators between them. -/
inductive Chain where
  | last (operand : Operand)
  | infixed (operand : Operand) (op : BinaryOp) (rest : Chain)

/-- Chains with commas between them. -/
inductive Items where
  | none
  | cons (first : Chain) (rest : Items)

end

mutual

/-- The characters of the start of an operand. -/
def Core.text : Core → List Char
  | .word characters => characters
  | .quoted units => '"' :: units.flatMap Text.escapedPoint ++ ['"']
  | .array items => '[' :: items.text ++ [']']
  | .choice condition consequent alternate =>
    ['i', 'f', ' '] ++ condition.text ++ [' ', '{', ' '] ++ consequent.text ++
      [' ', '}', ' ', 'e', 'l', 's', 'e', ' ', '{', ' '] ++ alternate.text ++ [' ', '}']
  | .group inner => '(' :: inner.text ++ [')']

/-- The characters of what follows the start of an operand. -/
def Suffixes.text : Suffixes → List Char
  | .done => []
  | .index position more => '[' :: position.text ++ ']' :: more.text
  | .arguments items more => '(' :: items.text ++ ')' :: more.text
  | .method name items more => '.' :: name ++ '(' :: items.text ++ ')' :: more.text

/-- The characters of an operand. -/
def Operand.text : Operand → List Char
  | .plain core suffixes => core.text ++ suffixes.text
  | .signed op operand => op.symbol.toList ++ operand.text

/-- The characters of a chain. -/
def Chain.text : Chain → List Char
  | .last operand => operand.text
  | .infixed operand op rest => operand.text ++ ' ' :: (symbol op).toList ++ ' ' :: rest.text

/-- The characters of chains with commas between them. -/
def Items.text : Items → List Char
  | .none => []
  | .cons first rest => first.text ++ rest.tailText

/-- The characters of chains with a comma before each. -/
def Items.tailText : Items → List Char
  | .none => []
  | .cons first rest => ',' :: ' ' :: first.text ++ rest.tailText

end

mutual

/-- The words of a start of an operand are words, and its units have 16 bits. -/
def Core.Spelled : Core → Prop
  | .word characters => IsWord characters
  | .quoted units => ∀ u ∈ units, u < 0x10000
  | .array items => items.Spelled
  | .choice condition consequent alternate =>
    condition.Spelled ∧ consequent.Spelled ∧ alternate.Spelled
  | .group inner => inner.Spelled

@[inherit_doc Core.Spelled]
def Suffixes.Spelled : Suffixes → Prop
  | .done => True
  | .index position more => position.Spelled ∧ more.Spelled
  | .arguments items more => items.Spelled ∧ more.Spelled
  | .method name items more => IsWord name ∧ items.Spelled ∧ more.Spelled

@[inherit_doc Core.Spelled]
def Operand.Spelled : Operand → Prop
  | .plain core suffixes => core.Spelled ∧ suffixes.Spelled
  | .signed _ operand => operand.Spelled

@[inherit_doc Core.Spelled]
def Chain.Spelled : Chain → Prop
  | .last operand => operand.Spelled
  | .infixed operand _ rest => operand.Spelled ∧ rest.Spelled

@[inherit_doc Core.Spelled]
def Items.Spelled : Items → Prop
  | .none => True
  | .cons first rest => first.Spelled ∧ rest.Spelled

end

/-! ## What may follow -/

/-- Characters that end a chain. -/
inductive Closes : List Char → Prop
  | nil : Closes []
  | comma (rest : List Char) : Closes (',' :: rest)
  | paren (rest : List Char) : Closes (')' :: rest)
  | bracket (rest : List Char) : Closes (']' :: rest)
  | braceOpen (rest : List Char) : Closes (' ' :: '{' :: rest)
  | braceClose (rest : List Char) : Closes (' ' :: '}' :: rest)

/-- Characters that end an operand: an operator may follow. -/
inductive Separates : List Char → Prop
  | closes {rest : List Char} (h : Closes rest) : Separates rest
  | infixed (op : BinaryOp) (rest : List Char) : Separates (' ' :: (symbol op).toList ++ ' ' :: rest)

/-- Characters that end the start of an operand: an element, a call or a method may follow. -/
inductive Stops : List Char → Prop
  | separates {rest : List Char} (h : Separates rest) : Stops rest
  | element (rest : List Char) : Stops ('[' :: rest)
  | arguments (rest : List Char) : Stops ('(' :: rest)
  | method (rest : List Char) : Stops ('.' :: rest)

/-- Whether an operand without a sign may start with the character. -/
def startsCore (c : Char) : Bool := isNamePart c || c == '"' || c == '[' || c == '('

/-- Characters with which an operand starts. -/
inductive Starts : List Char → Prop
  | core {c : Char} (h : startsCore c = true) (rest : List Char) : Starts (c :: rest)
  | signed (op : UnaryOp) {rest : List Char} (h : Starts rest) : Starts (op.symbol.toList ++ rest)

/-- A sign and what follows it can be told. -/
theorem sign_append_inj {op op' : UnaryOp} {rest rest' : List Char}
    (h : op.symbol.toList ++ rest = op'.symbol.toList ++ rest') : op = op' ∧ rest = rest' := by
  cases op <;> cases op' <;> cases h <;> exact ⟨rfl, rfl⟩

/-- A sign is no other start of an operand. -/
theorem sign_ne {c : Char} (hc : startsCore c = true) (op : UnaryOp) (rest tail : List Char) :
    c :: tail ≠ op.symbol.toList ++ rest := by
  intro h
  cases op with
  | neg =>
      cases h
      cases hc
  | not =>
      cases h
      cases hc

theorem starts_of_signed (op : UnaryOp) {rest : List Char} (h : Starts (op.symbol.toList ++ rest)) :
    Starts rest := by
  generalize hcs : op.symbol.toList ++ rest = cs at h
  cases h with
  | core hcore tail => exact absurd hcs.symm (sign_ne hcore op rest tail)
  | signed op' h =>
      obtain ⟨-, rfl⟩ := sign_append_inj hcs
      exact h

theorem not_starts {c : Char} (h : (startsCore c || c == '-' || c == '!') = false)
    (rest : List Char) : ¬ Starts (c :: rest) := by
  rw [Bool.or_eq_false_iff, Bool.or_eq_false_iff] at h
  intro hstarts
  generalize hcs : c :: rest = cs at hstarts
  cases hstarts with
  | core hcore =>
      cases hcs
      rw [h.1.1] at hcore
      cases hcore
  | signed op hrest =>
      cases op with
      | neg =>
          cases hcs
          cases h.1.2
      | not =>
          cases hcs
          cases h.2

/-- An operator with a blank behind it is no operand, also where it looks like a sign. -/
theorem not_starts_symbol (op : BinaryOp) (rest : List Char) :
    ¬ Starts ((symbol op).toList ++ ' ' :: rest) := by
  cases op with
  | sub => exact fun h => not_starts rfl _ (starts_of_signed .neg h)
  | ne => exact fun h => not_starts rfl _ (starts_of_signed .not h)
  | _ => exact not_starts rfl _

theorem not_closes_symbol (op : BinaryOp) (rest : List Char) :
    ¬ Closes (' ' :: (symbol op).toList ++ ' ' :: rest) := by
  intro h
  generalize hcs : ' ' :: (symbol op).toList ++ ' ' :: rest = cs at h
  cases h <;> cases op <;> cases hcs

/-- What follows an operand does not start with one, after a blank. -/
theorem not_starts_of_separates {rest : List Char} (h : Separates (' ' :: rest)) : ¬ Starts rest := by
  generalize hcs : ' ' :: rest = cs at h
  cases h with
  | closes h =>
      cases h with
      | braceOpen tail =>
          cases hcs
          exact not_starts rfl tail
      | braceClose tail =>
          cases hcs
          exact not_starts rfl tail
      | _ => cases hcs
  | infixed op tail =>
      cases hcs
      exact not_starts_symbol op tail

/-- The start of an operand begins with a character that is no sign. -/
theorem Core.head (k : Core) (h : k.Spelled) (rest : List Char) :
    ∃ c tail, k.text ++ rest = c :: tail ∧ startsCore c = true := by
  cases k with
  | word characters =>
      obtain ⟨c, cs, rfl⟩ := List.exists_cons_of_ne_nil h.1
      refine ⟨c, cs ++ rest, rfl, ?_⟩
      rw [startsCore, h.2 c List.mem_cons_self]
      rfl
  | quoted units => exact ⟨_, _, rfl, rfl⟩
  | array items => exact ⟨_, _, rfl, rfl⟩
  | choice condition consequent alternate => exact ⟨_, _, rfl, rfl⟩
  | group inner => exact ⟨_, _, rfl, rfl⟩

theorem Operand.starts : ∀ (o : Operand), o.Spelled → ∀ rest, Starts (o.text ++ rest)
  | .plain core suffixes, h, rest => by
      obtain ⟨c, tail, htext, hc⟩ := core.head h.1 (suffixes.text ++ rest)
      rw [Operand.text, List.append_assoc, htext]
      exact .core hc tail
  | .signed op operand, h, rest => by
      rw [Operand.text, List.append_assoc]
      exact .signed op (Operand.starts operand h rest)

theorem Chain.starts (k : Chain) (h : k.Spelled) (rest : List Char) : Starts (k.text ++ rest) := by
  cases k with
  | last operand => exact operand.starts h rest
  | infixed operand op k =>
      rw [Chain.text, List.append_assoc, List.append_assoc]
      exact operand.starts h.1 _

/-! ## Telling words and operators apart -/

/-- Characters of a kind that are followed by one of another kind can be told. -/
theorem append_inj_of_while {p : Char → Bool} {cs cs' rest rest' : List Char}
    (hcs : ∀ c ∈ cs, p c = true) (hcs' : ∀ c ∈ cs', p c = true)
    (hrest : ∀ c ∈ rest.head?, p c = false) (hrest' : ∀ c ∈ rest'.head?, p c = false)
    (h : cs ++ rest = cs' ++ rest') : cs = cs' ∧ rest = rest' := by
  have htake : ∀ {xs ys : List Char}, (∀ c ∈ xs, p c = true) → (∀ c ∈ ys.head?, p c = false) →
      (xs ++ ys).takeWhile p = xs := by
    intro xs ys hxs hys
    rw [List.takeWhile_append_of_pos hxs, List.append_right_eq_self]
    cases ys with
    | nil => rfl
    | cons y ys => exact List.takeWhile_cons_of_neg (by simp [hys y rfl])
  have heq : cs = cs' := by rw [← htake hcs hrest, h, htake hcs' hrest']
  subst heq
  exact ⟨rfl, List.append_cancel_left h⟩

/-- The operator with given characters. -/
def operatorOf? (cs : List Char) : Option BinaryOp :=
  BinaryOp.all.find? fun op => (symbol op).toList == cs

theorem operatorOf?_symbol (op : BinaryOp) : operatorOf? (symbol op).toList = some op := by
  cases op <;> decide

/-- Operators can be told by their characters up to the blank. -/
theorem symbol_append_inj {op op' : BinaryOp} {rest rest' : List Char}
    (h : (symbol op).toList ++ ' ' :: rest = (symbol op').toList ++ ' ' :: rest') :
    op = op' ∧ rest = rest' := by
  have hsymbol : ∀ op : BinaryOp, ∀ c ∈ (symbol op).toList, (c != ' ') = true := by
    intro op
    rw [← List.all_eq_true]
    cases op <;> decide
  have hblank : ∀ {tail : List Char}, ∀ c ∈ (' ' :: tail).head?, (c != ' ') = false := by
    rintro tail c ⟨⟩
    rfl
  obtain ⟨hop, hrest⟩ := append_inj_of_while (hsymbol op) (hsymbol op') hblank hblank h
  have hfound := operatorOf?_symbol op
  rw [hop, operatorOf?_symbol, Option.some_inj] at hfound
  exact ⟨hfound.symm, (List.cons.inj hrest).2⟩

theorem Stops.not_isNamePart {rest : List Char} (h : Stops rest) :
    ∀ c ∈ rest.head?, isNamePart c = false := by
  intro c hc
  cases h with
  | separates h =>
      cases h with
      | closes h => cases h <;> cases hc <;> rfl
      | infixed op tail =>
          cases hc
          rfl
  | _ =>
      cases hc
      rfl

theorem word_append_inj {cs cs' rest rest' : List Char} (hcs : IsWord cs) (hcs' : IsWord cs')
    (hrest : Stops rest) (hrest' : Stops rest') (h : cs ++ rest = cs' ++ rest') :
    cs = cs' ∧ rest = rest' :=
  append_inj_of_while hcs.2 hcs'.2 hrest.not_isNamePart hrest'.not_isNamePart h

theorem word_ne {cs : List Char} (hcs : IsWord cs) {c : Char} (hc : isNamePart c = false)
    (rest tail : List Char) : cs ++ rest ≠ c :: tail := by
  obtain ⟨d, ds, rfl⟩ := List.exists_cons_of_ne_nil hcs.1
  intro h
  obtain ⟨rfl, -⟩ := List.cons.inj h
  rw [hcs.2 d List.mem_cons_self] at hc
  cases hc

/-- A choice is no word: behind the word `if` stands an operand, where an operator would have to. -/
theorem word_ne_choice {cs rest tail : List Char} (hcs : IsWord cs) (hrest : Stops rest)
    (htail : Starts tail) : cs ++ rest ≠ 'i' :: 'f' :: ' ' :: tail := by
  intro h
  have hblank : ∀ c ∈ (' ' :: tail).head?, isNamePart c = false := by
    rintro c ⟨⟩
    rfl
  have hif : ∀ c ∈ ['i', 'f'], isNamePart c = true := List.all_eq_true.mp rfl
  obtain ⟨-, rfl⟩ := append_inj_of_while hcs.2 hif hrest.not_isNamePart hblank h
  generalize hafter : ' ' :: tail = after at hrest
  cases hrest with
  | separates hrest =>
      subst hafter
      exact not_starts_of_separates hrest htail
  | _ => cases hafter

/-! ## Unique readings -/

theorem Suffixes.stops (s : Suffixes) {rest : List Char} (h : Separates rest) :
    Stops (s.text ++ rest) := by
  cases s with
  | done => exact .separates h
  | index position more => exact .element _
  | arguments items more => exact .arguments _
  | method name items more => exact .method _

/-- What follows an operand does not extend it. -/
theorem Suffixes.eq_done {s : Suffixes} {tail : List Char} (h : Separates (s.text ++ tail)) :
    s = .done := by
  generalize hcs : s.text ++ tail = cs at h
  cases s with
  | done => rfl
  | _ =>
      cases h with
      | closes h => cases h <;> cases hcs
      | infixed op => cases hcs

theorem Items.closes (items : Items) {c : Char} (hc : c = ')' ∨ c = ']') (rest : List Char) :
    Closes (items.tailText ++ c :: rest) := by
  cases items with
  | none =>
      rcases hc with rfl | rfl
      · exact .paren rest
      · exact .bracket rest
  | cons first items => exact .comma _

theorem Core.text_ne_sign (k : Core) (h : k.Spelled) (op : UnaryOp) (rest tail : List Char) :
    k.text ++ rest ≠ op.symbol.toList ++ tail := by
  obtain ⟨c, cs, htext, hc⟩ := k.head h rest
  rw [htext]
  exact sign_ne hc op tail cs

/-- A chain does not start with a closing bracket. -/
theorem Chain.text_ne_closing {k : Chain} (h : k.Spelled) {c : Char} (hc : c = ')' ∨ c = ']')
    (rest tail : List Char) : k.text ++ rest ≠ c :: tail := by
  intro heq
  have hstarts := k.starts h rest
  rw [heq] at hstarts
  rcases hc with rfl | rfl
  · exact not_starts rfl tail hstarts
  · exact not_starts rfl tail hstarts

mutual

theorem Core.text_inj : ∀ (k k' : Core) {rest rest' : List Char}, k.Spelled → k'.Spelled →
    Stops rest → Stops rest' → k.text ++ rest = k'.text ++ rest' → k = k' ∧ rest = rest'
  -- the first character tells the kinds apart, except that a word may start like a choice
  | .word cs, k', rest, rest', hk, hk', hrest, hrest', h => by
      cases k' with
      | word cs' =>
          obtain ⟨rfl, hrest⟩ := word_append_inj hk hk' hrest hrest' h
          exact ⟨rfl, hrest⟩
      | choice condition consequent alternate =>
          simp only [Core.text, List.append_assoc, List.cons_append, List.nil_append] at h
          exact absurd h (word_ne_choice hk hrest (condition.starts hk'.1 _))
      | quoted units => exact absurd h (word_ne hk rfl _ _)
      | array items => exact absurd h (word_ne hk rfl _ _)
      | group inner => exact absurd h (word_ne hk rfl _ _)
  | .quoted units, k', rest, rest', hk, hk', hrest, hrest', h => by
      cases k' with
      | quoted units' =>
          simp only [Core.text, List.append_assoc, List.cons_append, List.nil_append,
            List.cons.injEq, true_and] at h
          obtain ⟨rfl, hrest⟩ := Text.flatMap_escapedPoint_inj hk hk' h
          exact ⟨rfl, hrest⟩
      | word cs' => exact absurd h.symm (word_ne hk' rfl _ _)
      | _ => simp [Core.text] at h
  | .array items, k', rest, rest', hk, hk', hrest, hrest', h => by
      cases k' with
      | array items' =>
          simp only [Core.text, List.append_assoc, List.cons_append, List.nil_append,
            List.cons.injEq, true_and] at h
          obtain ⟨rfl, hrest⟩ := Items.text_inj items items' hk hk' (.inr rfl) h
          exact ⟨rfl, hrest⟩
      | word cs' => exact absurd h.symm (word_ne hk' rfl _ _)
      | _ => simp [Core.text] at h
  | .choice condition consequent alternate, k', rest, rest', hk, hk', hrest, hrest', h => by
      cases k' with
      | choice condition' consequent' alternate' =>
          simp only [Core.text, List.append_assoc, List.cons_append, List.nil_append,
            List.cons.injEq, true_and] at h
          obtain ⟨rfl, hthen⟩ := Chain.text_inj condition condition' hk.1 hk'.1
            (.braceOpen _) (.braceOpen _) h
          simp only [List.cons.injEq, true_and] at hthen
          obtain ⟨rfl, helse⟩ := Chain.text_inj consequent consequent' hk.2.1 hk'.2.1
            (.braceClose _) (.braceClose _) hthen
          simp only [List.cons.injEq, true_and] at helse
          obtain ⟨rfl, hend⟩ := Chain.text_inj alternate alternate' hk.2.2 hk'.2.2
            (.braceClose _) (.braceClose _) helse
          simp only [List.cons.injEq, true_and] at hend
          exact ⟨rfl, hend⟩
      | word cs' =>
          simp only [Core.text, List.append_assoc, List.cons_append, List.nil_append] at h
          exact absurd h.symm (word_ne_choice hk' hrest' (condition.starts hk.1 _))
      | _ => simp [Core.text] at h
  | .group inner, k', rest, rest', hk, hk', hrest, hrest', h => by
      cases k' with
      | group inner' =>
          simp only [Core.text, List.append_assoc, List.cons_append, List.nil_append,
            List.cons.injEq, true_and] at h
          obtain ⟨rfl, hend⟩ := Chain.text_inj inner inner' hk hk' (.paren _) (.paren _) h
          exact ⟨rfl, (List.cons.inj hend).2⟩
      | word cs' => exact absurd h.symm (word_ne hk' rfl _ _)
      | _ => simp [Core.text] at h

theorem Suffixes.text_inj : ∀ (s s' : Suffixes) {rest rest' : List Char}, s.Spelled → s'.Spelled →
    Separates rest → Separates rest' → s.text ++ rest = s'.text ++ rest' → s = s' ∧ rest = rest'
  | .done, s', rest, rest', hs, hs', hrest, hrest', h => by
      change rest = s'.text ++ rest' at h
      rw [h] at hrest
      obtain rfl := Suffixes.eq_done hrest
      exact ⟨rfl, h⟩
  | .index position more, s', rest, rest', hs, hs', hrest, hrest', h => by
      cases s' with
      | index position' more' =>
          simp only [Suffixes.text, List.append_assoc, List.cons_append, List.cons.injEq,
            true_and] at h
          obtain ⟨rfl, hmore⟩ := Chain.text_inj position position' hs.1 hs'.1
            (.bracket _) (.bracket _) h
          obtain ⟨rfl, hend⟩ := Suffixes.text_inj more more' hs.2 hs'.2 hrest hrest'
            (List.cons.inj hmore).2
          exact ⟨rfl, hend⟩
      | done =>
          change _ = rest' at h
          rw [← h] at hrest'
          cases Suffixes.eq_done hrest'
      | _ => simp [Suffixes.text] at h
  | .arguments items more, s', rest, rest', hs, hs', hrest, hrest', h => by
      cases s' with
      | arguments items' more' =>
          simp only [Suffixes.text, List.append_assoc, List.cons_append, List.cons.injEq,
            true_and] at h
          obtain ⟨rfl, hmore⟩ := Items.text_inj items items' hs.1 hs'.1 (.inl rfl) h
          obtain ⟨rfl, hend⟩ := Suffixes.text_inj more more' hs.2 hs'.2 hrest hrest' hmore
          exact ⟨rfl, hend⟩
      | done =>
          change _ = rest' at h
          rw [← h] at hrest'
          cases Suffixes.eq_done hrest'
      | _ => simp [Suffixes.text] at h
  | .method name items more, s', rest, rest', hs, hs', hrest, hrest', h => by
      cases s' with
      | method name' items' more' =>
          simp only [Suffixes.text, List.append_assoc, List.cons_append, List.cons.injEq,
            true_and] at h
          obtain ⟨rfl, hitems⟩ := word_append_inj hs.1 hs'.1 (.arguments _) (.arguments _) h
          obtain ⟨rfl, hmore⟩ := Items.text_inj items items' hs.2.1 hs'.2.1 (.inl rfl)
            (List.cons.inj hitems).2
          obtain ⟨rfl, hend⟩ := Suffixes.text_inj more more' hs.2.2 hs'.2.2 hrest hrest' hmore
          exact ⟨rfl, hend⟩
      | done =>
          change _ = rest' at h
          rw [← h] at hrest'
          cases Suffixes.eq_done hrest'
      | _ => simp [Suffixes.text] at h

theorem Operand.text_inj : ∀ (o o' : Operand) {rest rest' : List Char}, o.Spelled → o'.Spelled →
    Separates rest → Separates rest' → o.text ++ rest = o'.text ++ rest' → o = o' ∧ rest = rest'
  | .plain core suffixes, o', rest, rest', ho, ho', hrest, hrest', h => by
      cases o' with
      | plain core' suffixes' =>
          simp only [Operand.text, List.append_assoc] at h
          obtain ⟨rfl, hmore⟩ := Core.text_inj core core' ho.1 ho'.1 (suffixes.stops hrest)
            (suffixes'.stops hrest') h
          obtain ⟨rfl, hend⟩ := Suffixes.text_inj suffixes suffixes' ho.2 ho'.2 hrest hrest' hmore
          exact ⟨rfl, hend⟩
      | signed op operand =>
          simp only [Operand.text, List.append_assoc] at h
          exact absurd h (core.text_ne_sign ho.1 op _ _)
  | .signed op operand, o', rest, rest', ho, ho', hrest, hrest', h => by
      cases o' with
      | plain core suffixes =>
          simp only [Operand.text, List.append_assoc] at h
          exact absurd h.symm (core.text_ne_sign ho'.1 op _ _)
      | signed op' operand' =>
          simp only [Operand.text, List.append_assoc] at h
          obtain ⟨rfl, hmore⟩ := sign_append_inj h
          obtain ⟨rfl, hend⟩ := Operand.text_inj operand operand' ho ho' hrest hrest' hmore
          exact ⟨rfl, hend⟩

/-- **Unique readings.** Two chains with the same characters, each with something behind it that ends a
chain, are the same chain, and the same is behind them. -/
theorem Chain.text_inj : ∀ (k k' : Chain) {rest rest' : List Char}, k.Spelled → k'.Spelled →
    Closes rest → Closes rest' → k.text ++ rest = k'.text ++ rest' → k = k' ∧ rest = rest'
  | .last operand, k', rest, rest', hk, hk', hrest, hrest', h => by
      cases k' with
      | last operand' =>
          obtain ⟨rfl, hend⟩ := Operand.text_inj operand operand' hk hk' (.closes hrest)
            (.closes hrest') h
          exact ⟨rfl, hend⟩
      | infixed operand' op more =>
          -- then an operator would stand where the first chain ends
          simp only [Chain.text, List.append_assoc] at h
          obtain ⟨-, rfl⟩ := Operand.text_inj operand operand' hk hk'.1 (.closes hrest)
            (.infixed op _) h
          exact absurd hrest (not_closes_symbol op _)
  | .infixed operand op more, k', rest, rest', hk, hk', hrest, hrest', h => by
      cases k' with
      | last operand' =>
          simp only [Chain.text, List.append_assoc] at h
          obtain ⟨-, rfl⟩ := Operand.text_inj operand operand' hk.1 hk' (.infixed op _)
            (.closes hrest') h
          exact absurd hrest' (not_closes_symbol op _)
      | infixed operand' op' more' =>
          simp only [Chain.text, List.append_assoc] at h
          obtain ⟨rfl, hop⟩ := Operand.text_inj operand operand' hk.1 hk'.1 (.infixed op _)
            (.infixed op' _) h
          obtain ⟨rfl, hmore⟩ := symbol_append_inj (List.cons.inj hop).2
          obtain ⟨rfl, hend⟩ := Chain.text_inj more more' hk.2 hk'.2 hrest hrest' hmore
          exact ⟨rfl, hend⟩

theorem Items.text_inj : ∀ (items items' : Items) {c : Char} {rest rest' : List Char},
    items.Spelled → items'.Spelled → (c = ')' ∨ c = ']') →
    items.text ++ c :: rest = items'.text ++ c :: rest' → items = items' ∧ rest = rest'
  | .none, items', c, rest, rest', h₁, h₂, hc, h => by
      cases items' with
      | none => exact ⟨rfl, (List.cons.inj h).2⟩
      | cons first' items' =>
          simp only [Items.text, List.append_assoc, List.nil_append] at h
          exact absurd h.symm (Chain.text_ne_closing h₂.1 hc _ _)
  | .cons first items, items', c, rest, rest', h₁, h₂, hc, h => by
      cases items' with
      | none =>
          simp only [Items.text, List.append_assoc, List.nil_append] at h
          exact absurd h (Chain.text_ne_closing h₁.1 hc _ _)
      | cons first' items' =>
          simp only [Items.text, List.append_assoc] at h
          obtain ⟨rfl, hmore⟩ := Chain.text_inj first first' h₁.1 h₂.1 (items.closes hc _)
            (items'.closes hc _) h
          obtain ⟨rfl, hend⟩ := Items.tailText_inj items items' h₁.2 h₂.2 hc hmore
          exact ⟨rfl, hend⟩

theorem Items.tailText_inj : ∀ (items items' : Items) {c : Char} {rest rest' : List Char},
    items.Spelled → items'.Spelled → (c = ')' ∨ c = ']') →
    items.tailText ++ c :: rest = items'.tailText ++ c :: rest' → items = items' ∧ rest = rest'
  | .none, items', c, rest, rest', h₁, h₂, hc, h => by
      cases items' with
      | none => exact ⟨rfl, (List.cons.inj h).2⟩
      | cons first' items' =>
          cases h
          rcases hc with hc | hc <;> cases hc
  | .cons first items, items', c, rest, rest', h₁, h₂, hc, h => by
      cases items' with
      | none =>
          cases h
          rcases hc with hc | hc <;> cases hc
      | cons first' items' =>
          simp only [Items.tailText, List.append_assoc, List.cons_append, List.cons.injEq,
            true_and] at h
          obtain ⟨rfl, hmore⟩ := Chain.text_inj first first' h₁.1 h₂.1 (items.closes hc _)
            (items'.closes hc _) h
          obtain ⟨rfl, hend⟩ := Items.tailText_inj items items' h₁.2 h₂.2 hc hmore
          exact ⟨rfl, hend⟩

end

end ArrowCircuit.Noir
