import ArrowCircuit.Proofs.Number.Numeral
import ArrowCircuit.Proofs.Script.Lexing
import ArrowCircuit.Proofs.Script.Reads

/-!
# Precedence of operators

An expression of names, numbers and operators is printed with only those parentheses that the
precedence of its operators calls for, all of them grouping to the left, and is read back as it was.

The parser climbs: it reads an operand, and then extends it by operators of a level or above.  So what is
shown of a printed operand (`Climbs`) is that reading it amounts to extending it by what stands behind it,
at every level up to the one it was printed for.  This is closed under the operators and under
parentheses, and an expression is built by these.
-/

namespace ArrowCircuit

/-- The operators between two operands, by how tightly they bind, the loosest first. -/
def BinaryOp.levels : List (List BinaryOp) :=
  [[.or], [.and], [.eq, .ne], [.lt, .le, .gt, .ge], [.add, .sub], [.mul, .div, .mod]]

/-- The level of an operator. -/
def BinaryOp.precedence (op : BinaryOp) : Nat := BinaryOp.levels.findIdx fun level => level.contains op

/-- An expression of names, numbers and operators between two operands. -/
inductive Operation where
  | ident (name : String)
  | number (value : Nat)
  | binary (op : BinaryOp) (left right : Operation)
  deriving DecidableEq, Repr

namespace Operation

/-- The operation as an expression of a circuit. -/
def expr : Operation → Expr
  | .ident name => .identifier name
  | .number value => .literal (.int value)
  | .binary op left right => .binary op left.expr right.expr

/-- The text of an operation where operators below `level` need parentheses. -/
def source (level : Nat) : Operation → String
  | .ident name => name
  | .number value => Numeral.decimalNat value
  | .binary op left right =>
    let text := left.source op.precedence ++ " " ++ op.symbol ++ " " ++ right.source (op.precedence + 1)
    if op.precedence < level then "(" ++ text ++ ")" else text

/-- The names of an operation are among the given ones, without a mark and no truth values, and its
numbers are within the limit for decimal text. -/
def Over (names : List String) : Operation → Prop
  | .ident name => name ∈ names ∧ (Script.stripMut name).2 = false ∧ name ≠ "true" ∧ name ≠ "false"
  | .number value => value < 10 ^ Numeral.digitLimit
  | .binary _ left right => left.Over names ∧ right.Over names

/-- The script that asserts an operation. -/
def script (publics privates : List String) (e : Operation) : String :=
  "([" ++ ", ".intercalate publics ++ "], [" ++ ", ".intercalate privates ++ "]) => " ++ e.source 0

-- a product of sums, a difference on the right, and a chain of comparisons
example :
    source 0 (.binary .mul (.binary .add (.ident "a") (.number 1)) (.ident "b")) = "(a + 1) * b" ∧
      source 0 (.binary .sub (.ident "a") (.binary .sub (.ident "b") (.ident "c"))) = "a - (b - c)" ∧
      source 0 (.binary .eq (.binary .lt (.ident "a") (.ident "b")) (.number 0)) = "a < b == 0" := by
  decide +kernel

end Operation

namespace Script

theorem bindingLevel_eq_precedence (op : BinaryOp) : bindingLevel op = op.precedence := by
  cases op <;> rfl

/-! ## Operands and what follows them -/

/-- A terminal that does not continue an operand. -/
def endsOperand : Terminal → Bool
  | .leftBracket | .dot | .leftParen | .increment | .decrement => false
  | _ => true

/-- The text behind an operand: its first token is of the kind `t`, which does not continue the operand,
and if it is an operator it binds no tighter than `level`. -/
structure Follows (level : Nat) (rest : List Char) (t : Terminal) : Prop where
  breaks : breaks rest = true
  lexes : ∃ lexeme behind, Lexes .operand rest t lexeme behind
  ends : endsOperand t = true
  looser : ∀ op, binaryOp? t = some op → op.precedence ≤ level

theorem Follows.mono {level level' : Nat} {rest : List Char} {t : Terminal} (h : Follows level rest t)
    (hle : level ≤ level') : Follows level' rest t :=
  ⟨h.breaks, h.lexes, h.ends, fun op hop => Nat.le_trans (h.looser op hop) hle⟩

/-- An operator between spaces is read as one, whatever stands behind it. -/
theorem exists_lexes_operator (op : BinaryOp) (rest : List Char) :
    ∃ t, binaryOp? t = some op ∧ endsOperand t = true ∧
      Lexes .operand (' ' :: (op.symbol.toList ++ ' ' :: rest)) t op.symbol.toList (' ' :: rest) := by
  have hlexeme : ∃ t, binaryOp? t = some op ∧ endsOperand t = true ∧
      lexeme? Context.operand.accepts (op.symbol.toList ++ ' ' :: rest) =
        some (t, op.symbol.toList.length) := by
    cases op <;> exact ⟨_, rfl, rfl, rfl⟩
  obtain ⟨t, hop, hends, hlexeme⟩ := hlexeme
  have hskip : ignoredLength (op.symbol.toList ++ ' ' :: rest) = 0 := by cases op <;> rfl
  exact ⟨t, hop, hends, (lexes_of_lexeme? hskip hlexeme).space⟩

theorem follows_operator (op : BinaryOp) (rest : List Char) :
    ∃ t, binaryOp? t = some op ∧
      Lexes .operand (' ' :: (op.symbol.toList ++ ' ' :: rest)) t op.symbol.toList (' ' :: rest) ∧
      Follows op.precedence (' ' :: (op.symbol.toList ++ ' ' :: rest)) t := by
  obtain ⟨t, hop, hends, hlexes⟩ := exists_lexes_operator op rest
  refine ⟨t, hop, hlexes, rfl, ⟨_, _, hlexes⟩, hends, fun other hother => ?_⟩
  cases hop.symm.trans hother
  exact Nat.le_refl _

/-- Nothing, or a closing parenthesis, ends an expression. -/
def closes : Terminal → Bool
  | .rightParen | .endOfText => true
  | _ => false

theorem follows_of_closes {t : Terminal} {rest lexeme behind : List Char} (ht : closes t = true)
    (hbreaks : breaks rest = true) (hlexes : Lexes .operand rest t lexeme behind) (level : Nat) :
    Follows level rest t := by
  have hfacts : endsOperand t = true ∧ binaryOp? t = none := by
    cases t <;> first | exact ⟨rfl, rfl⟩ | cases ht
  refine ⟨hbreaks, ⟨lexeme, behind, hlexes⟩, hfacts.1, fun op hop => ?_⟩
  rw [hfacts.2] at hop
  cases hop

/-- The contexts that printed operands stand in. -/
def CallsForOperand (context : Context) : Prop := context = .operator ∨ context = .arrow

/-- The text of an operand, and the expression that it stands for.  Its first token can be read where an
operand is called for.  Reading it at a level, up to the one that it is printed for, amounts to extending
it by what follows. -/
structure Climbs (scopes : Scopes) (printed : Nat) (text : List Char) (e : Expr) : Prop where
  opens : ∀ context rest, CallsForOperand context → breaks rest = true →
    ∃ t lexeme behind, t ≠ .leftBrace ∧ Lexes context (text ++ rest) t lexeme behind
  climbs : ∀ level fuel context s rest t, level ≤ printed → CallsForOperand context →
    s.Ahead context (text ++ rest) → Follows printed rest t → 5 * text.length ≤ fuel →
    ∃ fuel' phrase s', fuel ≤ fuel' + text.length ∧
      parseBinary fuel level s = parseOperators fuel' level phrase s' ∧
      s'.Ahead .operand rest ∧ phrase.term.elaborate scopes = .ok e

/-! ## Parsing -/

section

variable {scopes : Scopes} {printed level fuel : Nat} {text rest : List Char} {e : Expr} {s s' : State}
  {phrase : Phrase} {t : Terminal} {context : Context}

theorem Follows.terminal (h : Follows level rest t) (hs : s.Ahead .operand rest) : s.terminal = t := by
  obtain ⟨lexeme, behind, hlexes⟩ := h.lexes
  exact (hlexes.token hs).1

/-- An operand without operators before it or steps behind it. -/
theorem parseBinary_of_primary (hunary : unaryOp? s.terminal = none) (hstep : step? s.terminal = none)
    (hprimary : parsePrimary (fuel + 1) s = .ok (phrase, s')) (hends : endsOperand s'.terminal = true) :
    parseBinary (fuel + 3) level s = parseOperators (fuel + 2) level phrase s' := by
  -- neither an index, a property or a call nor a step follows
  have hmembers : parseMembers (fuel + 1) phrase s' = .ok (phrase, s') := by
    rw [parseMembers]
    split
    · rename_i heq
      rw [heq] at hends
      cases hends
    · rename_i heq
      rw [heq] at hends
      cases hends
    · rename_i heq
      rw [heq] at hends
      cases hends
    · rfl
  have hlast : step? s'.terminal = none := by
    unfold step?
    split
    · rename_i heq
      rw [heq] at hends
      cases hends
    · rename_i heq
      rw [heq] at hends
      cases hends
    · rfl
  have hoperand : parseUnary (fuel + 2) s = .ok (phrase, s') := by
    rw [parseUnary]
    simp only [hunary, hstep, hprimary, hmembers, hlast, bind, Except.bind]
    rfl
  rw [parseBinary, hoperand]
  rfl

/-- Operators that bind more loosely end an expression. -/
theorem parseOperators_of_follows (h : Follows level rest t) (hs : s.Ahead .operand rest)
    {above : Nat} (habove : level < above) : parseOperators (fuel + 1) above phrase s = .ok (phrase, s) := by
  rw [parseOperators, h.terminal hs]
  split
  · rfl
  · rename_i op hop
    have hle := h.looser op hop
    rw [bindingLevel_eq_precedence, if_pos (Nat.lt_of_le_of_lt hle habove)]

theorem Climbs.mono {printed' : Nat} (h : Climbs scopes printed' text e) (hle : printed ≤ printed') :
    Climbs scopes printed text e where
  opens := h.opens
  climbs level fuel context s rest t hlevel hcontext hs hfollows hfuel :=
    h.climbs level fuel context s rest t (Nat.le_trans hlevel hle) hcontext hs (hfollows.mono hle) hfuel

/-- An operand of one token. -/
theorem climbs_token {kind : Terminal} (hkind : kind = .name ∨ kind = .number) (hlength : 0 < text.length)
    (hlexes : ∀ context rest, CallsForOperand context → breaks rest = true →
      Lexes context (text ++ rest) kind text rest)
    (term : Nat → Term) (hterm : ∀ line, (term line).elaborate scopes = .ok e)
    (hprimary : ∀ fuel (s s' : State), s.terminal = kind → s.token.lexeme = text →
      s.consume .operand = .ok s' → parsePrimary (fuel + 1) s = .ok (⟨s.line, term s.line⟩, s')) :
    Climbs scopes printed text e where
  opens context rest hcontext hbreaks := by
    refine ⟨kind, text, rest, ?_, hlexes context rest hcontext hbreaks⟩
    rcases hkind with rfl | rfl <;> exact Terminal.noConfusion
  climbs level fuel context s rest t hlevel hcontext hs hfollows hfuel := by
    obtain ⟨hterminal, hlexeme, hrest⟩ := (hlexes context rest hcontext hfollows.breaks).token hs
    obtain ⟨lexeme, behind, hbehind⟩ := hfollows.lexes
    obtain ⟨s', hconsume, hahead⟩ := hbehind.consume hrest
    obtain ⟨fuel, rfl⟩ : ∃ n, fuel = n + 3 := ⟨fuel - 3, by omega⟩
    have hends : endsOperand s'.terminal = true := by
      rw [hfollows.terminal hahead]
      exact hfollows.ends
    have hoperand : unaryOp? s.terminal = none ∧ step? s.terminal = none := by
      rw [hterminal]
      rcases hkind with rfl | rfl <;> exact ⟨rfl, rfl⟩
    refine ⟨fuel + 2, ⟨s.line, term s.line⟩, s', by omega, ?_, hahead, hterm s.line⟩
    exact parseBinary_of_primary hoperand.1 hoperand.2 (hprimary fuel s s' hterminal hlexeme hconsume) hends

theorem climbs_ident {name : String} (hname : isName name.toList = true)
    (hresolved : (scopes.lookup? name).isSome) (hmark : (stripMut name).2 = false)
    (htrue : name ≠ "true") (hfalse : name ≠ "false") :
    Climbs scopes printed name.toList (.identifier name) := by
  have hlength : 0 < name.toList.length := by
    cases hchars : name.toList with
    | nil =>
        rw [hchars] at hname
        cases hname
    | cons c cs => exact Nat.succ_pos _
  refine climbs_token (.inl rfl) hlength (fun context rest hcontext hbreaks => ?_) (.ident · name)
    (fun line => ?_) fun fuel s s' hterminal hlexeme hconsume => ?_
  · -- of the keywords only the truth values are operands
    have hkeyword : ∀ k ∈ Terminal.keywords, k.1 ≠ "true" → k.1 ≠ "false" → context.accepts k.2 = false := by
      rcases hcontext with rfl | rfl <;> decide
    refine lexes_name hname hbreaks ?_ fun k hk heq => ?_
    · rcases hcontext with rfl | rfl <;> rfl
    · have hspelled : k.1 = name := String.toList_inj.mp heq
      exact hkeyword k hk (hspelled ▸ htrue) (hspelled ▸ hfalse)
  · obtain ⟨isMutable, hlookup⟩ := Option.isSome_iff_exists.mp hresolved
    rw [Term.elaborate, stripMut_eq_self_iff.mpr hmark, resolve, hlookup]
    rfl
  · rw [parsePrimary, hterminal]
    dsimp only
    rw [hconsume, State.lexeme, hlexeme, String.ofList_toList]
    rfl

theorem endsWith_eq_false {t : Text} (h : 0x6e ∉ t) : Text.endsWith t "n" = false := by
  rw [Bool.eq_false_iff]
  intro hsuffix
  exact h ((List.isSuffixOf_iff_suffix.mp hsuffix).subset (by decide))

/-- The digits of a number have neither the mark of base 16 nor that of a big integer. -/
theorem tokenValue_toDigits {n : Nat} (h : n < 10 ^ Numeral.digitLimit) :
    tokenValue (Nat.toDigits 10 n) = .ok n := by
  have hdigits : ∀ c ∈ (Nat.toDigits 10 n).map Char.toNat, 0x30 ≤ c ∧ c ≤ 0x39 := by
    intro c hc
    obtain ⟨d, hd, rfl⟩ := List.mem_map.mp hc
    exact Numeral.toNat_of_isDigit (Nat.isDigit_of_mem_toDigits (by decide) (by decide) hd)
  have hend : Text.endsWith ((Nat.toDigits 10 n).map Char.toNat) "n" = false := by
    refine endsWith_eq_false fun hmem => ?_
    have hrange := hdigits _ hmem
    omega
  have hmark : Text.asciiLower (((Nat.toDigits 10 n).map Char.toNat).take 2) ≠ Text.ofString "0x" := by
    intro heq
    have hmem : 0x78 ∈ Text.asciiLower (((Nat.toDigits 10 n).map Char.toNat).take 2) := by
      rw [heq]
      decide
    obtain ⟨c, hc, hlower⟩ := List.mem_map.mp hmem
    have hrange := hdigits c (List.mem_of_mem_take hc)
    split at hlower <;> omega
  rw [tokenValue, numberValue]
  simp only [hend, Bool.false_eq_true, if_false, if_neg hmark, Numeral.read_toDigits h]

/-- Nor does the mark of base 16 with its digits have that of a big integer. -/
theorem tokenValue_hex (n : Nat) : tokenValue ('0' :: 'x' :: Nat.toDigits 16 n) = .ok n := by
  obtain ⟨ds, hdigits, hsum⟩ := Numeral.exists_digits_toDigits 16 (by decide) (by decide) n
  have hend : Text.endsWith (0x30 :: 0x78 :: (Nat.toDigits 16 n).map Char.toNat) "n" = false := by
    refine endsWith_eq_false fun hmem => ?_
    simp only [List.mem_cons, Nat.reduceEqDiff, false_or] at hmem
    obtain ⟨d, hd⟩ := Numeral.exists_digitValue?_of_digits hdigits hmem
    cases hd
  have hread := Numeral.read_marked hdigits (mt List.map_eq_nil_iff.mp Nat.toDigits_ne_nil)
  rw [hsum] at hread
  have hmark : Text.asciiLower ((0x30 :: 0x78 :: (Nat.toDigits 16 n).map Char.toNat).take 2) =
      Text.ofString "0x" := rfl
  have hvalue : numberValue (0x30 :: 0x78 :: (Nat.toDigits 16 n).map Char.toNat) = .ok n := by
    rw [numberValue]
    simp only [hend, Bool.false_eq_true, if_false]
    rw [if_pos hmark, hread]
  have hcodes : ('0' :: 'x' :: Nat.toDigits 16 n).map Char.toNat =
      0x30 :: 0x78 :: (Nat.toDigits 16 n).map Char.toNat := rfl
  rw [tokenValue, hcodes, hvalue]

/-- An operand that is a number. -/
theorem climbs_numeral {digits : List Char} {z : Int} (hlength : 0 < digits.length)
    (hlexes : ∀ {context : Context} {rest : List Char}, breaks rest = true →
      context.accepts .number = true → Lexes context (digits ++ rest) .number digits rest)
    (hvalue : tokenValue digits = .ok z) : Climbs scopes printed digits (.literal (.int z)) := by
  refine climbs_token (.inr rfl) hlength (fun context rest hcontext hbreaks => ?_)
    (.number · digits) (fun line => ?_) fun fuel s s' hterminal hlexeme hconsume => ?_
  · refine hlexes hbreaks ?_
    rcases hcontext with rfl | rfl <;> rfl
  · rw [Term.elaborate, hvalue]
    rfl
  · rw [parsePrimary, hterminal]
    dsimp only
    rw [hconsume, hlexeme]
    rfl

theorem climbs_number {n : Nat} (h : n < 10 ^ Numeral.digitLimit) :
    Climbs scopes printed (Nat.toDigits 10 n) (.literal (.int n)) :=
  climbs_numeral (List.length_pos_iff.mpr Nat.toDigits_ne_nil) (lexes_number n) (tokenValue_toDigits h)

/-- In hexadecimal a number may have any number of digits. -/
theorem climbs_hex (n : Nat) :
    Climbs scopes printed ('0' :: 'x' :: Nat.toDigits 16 n) (.literal (.int n)) :=
  climbs_numeral (Nat.succ_pos _) (lexes_hex n) (tokenValue_hex n)

/-- **Operators.** The left operand is printed for the level of the operator, so that reading it stops at
the operator, which then takes the right operand; that one is printed for the next level and leaves out
operators of this level. -/
theorem climbs_binary (op : BinaryOp) {left right : List Char} {l r : Expr}
    (hl : Climbs scopes op.precedence left l) (hr : Climbs scopes (op.precedence + 1) right r) :
    Climbs scopes op.precedence (left ++ ' ' :: (op.symbol.toList ++ ' ' :: right)) (.binary op l r) where
  opens context rest hcontext hbreaks := by
    rw [List.append_assoc]
    exact hl.opens context _ hcontext rfl
  climbs level fuel context s rest t hlevel hcontext hs hfollows hfuel := by
    have hlength : (left ++ ' ' :: (op.symbol.toList ++ ' ' :: right)).length =
        left.length + op.symbol.toList.length + right.length + 2 := by
      simp only [List.length_append, List.length_cons]
      omega
    rw [hlength] at hfuel ⊢
    have htext : left ++ ' ' :: (op.symbol.toList ++ ' ' :: right) ++ rest =
        left ++ ' ' :: (op.symbol.toList ++ ' ' :: (right ++ rest)) := by
      simp only [List.append_assoc, List.cons_append]
    rw [htext] at hs
    obtain ⟨opTerminal, hop, hopLexes, hopFollows⟩ := follows_operator op (right ++ rest)
    -- reading the left operand comes down to extending it from the operator on
    obtain ⟨fuelLeft, leftPhrase, atOperator, hfuelLeft, hleft, hatOperator, hleftTerm⟩ :=
      hl.climbs level fuel context s _ opTerminal hlevel hcontext hs hopFollows (by omega)
    obtain ⟨hterminal, -, hbehind⟩ := hopLexes.token hatOperator
    -- behind the operator stands the right operand
    obtain ⟨first, lexeme, behind, -, hfirst⟩ := hr.opens .operator rest (.inl rfl) hfollows.breaks
    obtain ⟨atRight, hconsume, hatRight⟩ := hfirst.space.consume hbehind
    obtain ⟨fuelRight, rfl⟩ : ∃ n, fuelLeft = n + 1 := ⟨fuelLeft - 1, by omega⟩
    obtain ⟨fuelRest, rightPhrase, s', hfuelRest, hright, hs', hrightTerm⟩ :=
      hr.climbs (op.precedence + 1) fuelRight .operator atRight rest t (Nat.le_refl _) (.inl rfl)
        hatRight.of_space (hfollows.mono (Nat.le_succ _)) (by omega)
    obtain ⟨fuelStop, rfl⟩ : ∃ n, fuelRest = n + 1 := ⟨fuelRest - 1, by omega⟩
    -- what follows the right operand binds no tighter than the operator, so the operand ends here
    have hstop : parseOperators (fuelStop + 1) (op.precedence + 1) rightPhrase s' = .ok (rightPhrase, s') :=
      parseOperators_of_follows hfollows hs' (Nat.lt_succ_self _)
    refine ⟨fuelRight, ⟨leftPhrase.start, .binary leftPhrase.start op leftPhrase.term rightPhrase.term⟩, s',
      by omega, ?_, hs', ?_⟩
    · rw [hleft, parseOperators, hterminal, hop]
      simp only [bindingLevel_eq_precedence, if_neg (Nat.not_lt.mpr hlevel), hconsume, hright, hstop, bind,
        Except.bind]
    · rw [Term.elaborate, hleftTerm, hrightTerm]
      rfl

/-- An expression up to the end of a group or of the text. -/
theorem parseExpr_of_climbs (h : Climbs scopes printed text e) (hcontext : CallsForOperand context)
    (hs : s.Ahead context (text ++ rest)) (ht : closes t = true) (hbreaks : breaks rest = true)
    {lexeme behind : List Char} (hlexes : Lexes .operand rest t lexeme behind)
    (hfuel : 5 * text.length + 3 ≤ fuel) :
    ∃ phrase s', parseExpr fuel s = .ok (phrase, s') ∧ s'.Ahead .operand rest ∧
      phrase.term.elaborate scopes = .ok e := by
  obtain ⟨fuel, rfl⟩ : ∃ n, fuel = n + 2 := ⟨fuel - 2, by omega⟩
  have hfollows := follows_of_closes ht hbreaks hlexes printed
  obtain ⟨fuel', phrase, s', hfuel', hbinary, hs', hterm⟩ :=
    h.climbs 0 fuel context s rest t (Nat.zero_le _) hcontext hs hfollows (by omega)
  obtain ⟨stop, rfl⟩ : ∃ n, fuel' = n + 1 := ⟨fuel' - 1, by omega⟩
  have hterminal := hfollows.terminal hs'
  -- neither an operator nor an assignment nor a choice follows
  have hfacts : binaryOp? t = none ∧ assignOp? t = none ∧ t ≠ .question := by
    cases t <;> first | exact ⟨rfl, rfl, Terminal.noConfusion⟩ | cases ht
  have hoperators : parseOperators (stop + 1) 0 phrase s' = .ok (phrase, s') := by
    rw [parseOperators, hterminal, hfacts.1]
  have hconditional : parseConditional (fuel + 1) s = .ok (phrase, s') := by
    rw [parseConditional, hbinary, hoperators]
    simp only [bind, Except.bind, hterminal, if_neg hfacts.2.2]
    rfl
  refine ⟨phrase, s', ?_, hs', hterm⟩
  rw [parseExpr, hconditional]
  simp only [bind, Except.bind, hterminal, hfacts.2.1]
  rfl

theorem lexes_leftParen (hcontext : CallsForOperand context) (rest : List Char) :
    Lexes context ('(' :: rest) .leftParen ['('] rest := by
  rcases hcontext with rfl | rfl <;> exact lexes_symbol rfl rfl

theorem lexes_rightParen (rest : List Char) : Lexes .operand (')' :: rest) .rightParen [')'] rest :=
  lexes_symbol rfl rfl

/-- **Parentheses.** A group is an operand at every level. -/
theorem climbs_paren {inner : Nat} (h : Climbs scopes inner text e) :
    Climbs scopes printed ('(' :: (text ++ [')'])) e where
  opens context rest hcontext hbreaks := ⟨_, _, _, Terminal.noConfusion, lexes_leftParen hcontext _⟩
  climbs level fuel context s rest t hlevel hcontext hs hfollows hfuel := by
    have hlength : ('(' :: (text ++ [')'])).length = text.length + 2 := by
      simp only [List.length_cons, List.length_append, List.length_nil]
    rw [hlength] at hfuel ⊢
    have htext : '(' :: (text ++ [')']) ++ rest = '(' :: (text ++ ')' :: rest) := by
      simp only [List.cons_append, List.append_assoc, List.nil_append]
    rw [htext] at hs
    obtain ⟨fuel, rfl⟩ : ∃ n, fuel = n + 3 := ⟨fuel - 3, by omega⟩
    obtain ⟨hterminal, -, hbehind⟩ := (lexes_leftParen hcontext _).token hs
    -- into the group
    obtain ⟨first, lexeme, behind, -, hfirst⟩ := h.opens .operator (')' :: rest) (.inl rfl) rfl
    obtain ⟨atInner, hopen, hatInner⟩ := hfirst.consume hbehind
    have hclosing := lexes_rightParen rest
    have hinnerFuel : 5 * text.length + 3 ≤ fuel := by omega
    obtain ⟨phrase, atClose, hinner, hatClose, hterm⟩ :=
      parseExpr_of_climbs h (.inl rfl) hatInner rfl rfl hclosing hinnerFuel
    -- and out of it
    obtain ⟨hcloses, -, hbehindClose⟩ := hclosing.token hatClose
    obtain ⟨lexeme, behind, hnext⟩ := hfollows.lexes
    obtain ⟨s', hclose, hs'⟩ := hnext.expect hbehindClose hcloses
    have hprimary : parsePrimary (fuel + 1) s = .ok (⟨s.line, phrase.term⟩, s') := by
      rw [parsePrimary, hterminal]
      simp only [bind, Except.bind, hopen, hinner, hclose]
      rfl
    have hends : endsOperand s'.terminal = true := by
      rw [hfollows.terminal hs']
      exact hfollows.ends
    refine ⟨fuel + 2, ⟨s.line, phrase.term⟩, s', by omega, ?_, hs', hterm⟩
    exact parseBinary_of_primary (by rw [hterminal]; rfl) (by rw [hterminal]; rfl) hprimary hends

/-- **Printed operations.** Every operation climbs, as it is printed for any level. -/
theorem climbs_source {names : List String}
    (hnames : ∀ name ∈ names, isName name.toList = true ∧ (scopes.lookup? name).isSome)
    (operation : Operation) (hover : operation.Over names) (level : Nat) :
    Climbs scopes level (operation.source level).toList operation.expr := by
  induction operation generalizing level with
  | ident name =>
      obtain ⟨hmem, hmark, htrue, hfalse⟩ := hover
      obtain ⟨hname, hresolved⟩ := hnames name hmem
      exact climbs_ident hname hresolved hmark htrue hfalse
  | number value =>
      rw [Operation.source, Numeral.decimalNat, String.toList_ofList]
      exact climbs_number hover
  | binary op left right ihl ihr =>
      have hbody := climbs_binary op (ihl hover.1 op.precedence) (ihr hover.2 (op.precedence + 1))
      have htext : (left.source op.precedence ++ " " ++ op.symbol ++ " " ++
            right.source (op.precedence + 1)).toList =
          (left.source op.precedence).toList ++
            ' ' :: (op.symbol.toList ++ ' ' :: (right.source (op.precedence + 1)).toList) := by
        simp [String.toList_append]
      rw [Operation.source]
      split
      · rw [String.toList_append, String.toList_append, htext]
        exact climbs_paren hbody
      · rename_i hlevel
        rw [htext]
        exact hbody.mono (Nat.not_lt.mp hlevel)

end

end Script

end ArrowCircuit
