import ArrowCircuit.Proofs.Script.Precedence

/-!
# Printed scripts

A script whose body is an expression is read as the circuit of its parameters whose one statement asserts
that expression (`parse_asserting`).  Its parameters are two patterns of names, each between brackets, and
its body is any text that climbs, such as an operation as it is printed by precedence.
-/

namespace ArrowCircuit.Script

/-! ## Parameters -/

section

variable {publics privates names : List String} {rest lexeme behind : List Char} {t : Terminal} {s : State}
  {fuel : Nat}

/-- The names of a pattern behind the first one. -/
def moreNames (names : List String) : List Char := names.flatMap fun name => ',' :: ' ' :: name.toList

theorem moreNames_cons (name : String) (names : List String) :
    moreNames (name :: names) = ',' :: ' ' :: (name.toList ++ moreNames names) :=
  rfl

theorem toList_intercalate_cons (name : String) (names : List String) :
    (", ".intercalate (name :: names)).toList = name.toList ++ moreNames names := by
  rw [String.toList_intercalate]
  induction names generalizing name with
  | nil => simp [moreNames]
  | cons next names ih =>
      rw [List.map_cons, List.map_cons, List.intercalate_cons_cons, ← List.map_cons, ih, moreNames_cons]
      simp

theorem breaks_moreNames (names : List String) (rest : List Char) :
    breaks (moreNames names ++ ']' :: rest) = true := by
  cases names <;> rfl

/-- Inside a pattern every word is a name. -/
theorem lexes_patternName {context : Context} (hcontext : context = .patternOpen ∨ context = .patternComma)
    {name : String} (hname : isName name.toList = true) (names : List String) (rest : List Char) :
    Lexes context (name.toList ++ (moreNames names ++ ']' :: rest)) .name name.toList
      (moreNames names ++ ']' :: rest) := by
  have hkeyword : ∀ k ∈ Terminal.keywords, context.accepts k.2 = false := by
    rcases hcontext with rfl | rfl <;> decide
  refine lexes_name hname (breaks_moreNames names rest) ?_ fun k hk _ => hkeyword k hk
  rcases hcontext with rfl | rfl <;> rfl

theorem parsePatternNames_printed (hrest : Lexes .patternClose rest t lexeme behind) (names : List String)
    (hnames : ∀ name ∈ names, isName name.toList = true) :
    ∀ (name : String), isName name.toList = true → ∀ (context : Context),
      (context = .patternOpen ∨ context = .patternComma) → ∀ (s : State) (fuel : Nat),
      s.Ahead context (name.toList ++ (moreNames names ++ ']' :: rest)) → names.length < fuel →
      ∃ entries s', parsePatternNames fuel s = .ok (entries, s') ∧ entries.map (·.2) = name :: names ∧
        s'.Ahead .patternClose rest := by
  induction names with
  | nil =>
      intro name hname context hcontext s fuel hs hfuel
      obtain ⟨fuel, rfl⟩ : ∃ n, fuel = n + 1 := ⟨fuel - 1, by omega⟩
      obtain ⟨hterminal, hlexeme, hbehind⟩ := (lexes_patternName hcontext hname [] rest).token hs
      have hclosing : Lexes .patternName (']' :: rest) .rightBracket [']'] rest := lexes_symbol rfl rfl
      obtain ⟨atClose, hconsume, hatClose⟩ := hclosing.expect hbehind hterminal
      obtain ⟨hcloses, -, hbehindClose⟩ := hclosing.token hatClose
      obtain ⟨s', hclose, hs'⟩ := hrest.expect hbehindClose hcloses
      have hspelled : s.lexeme = name := by rw [State.lexeme, hlexeme, String.ofList_toList]
      have hcomma : atClose.terminal ≠ .comma := by
        rw [hcloses]
        exact Terminal.noConfusion
      refine ⟨[(s.line, name)], s', ?_, rfl, hs'⟩
      rw [parsePatternNames]
      simp only [bind, Except.bind, hconsume, if_neg hcomma, hclose, hspelled]
      rfl
  | cons next names ih =>
      intro name hname context hcontext s fuel hs hfuel
      obtain ⟨hnext, hnames⟩ := List.forall_mem_cons.mp hnames
      obtain ⟨fuel, rfl⟩ : ∃ n, fuel = n + 1 := ⟨fuel - 1, by omega⟩
      obtain ⟨hterminal, hlexeme, hbehind⟩ := (lexes_patternName hcontext hname (next :: names) rest).token hs
      have htail : moreNames (next :: names) ++ ']' :: rest =
          ',' :: ' ' :: (next.toList ++ (moreNames names ++ ']' :: rest)) := by
        rw [moreNames_cons, List.cons_append, List.cons_append, List.append_assoc]
      rw [htail] at hbehind
      have hcommaLexes : Lexes .patternName
          (',' :: ' ' :: (next.toList ++ (moreNames names ++ ']' :: rest))) .comma [',']
          (' ' :: (next.toList ++ (moreNames names ++ ']' :: rest))) := lexes_symbol rfl rfl
      obtain ⟨atComma, hconsume, hatComma⟩ := hcommaLexes.expect hbehind hterminal
      obtain ⟨hcomma, -, hbehindComma⟩ := hcommaLexes.token hatComma
      obtain ⟨atNext, hskip, hatNext⟩ :=
        (lexes_patternName (.inr rfl) hnext names rest).space.consume hbehindComma
      obtain ⟨entries, s', hentries, hmap, hs'⟩ :=
        ih hnames next hnext .patternComma (.inr rfl) atNext fuel hatNext.of_space
          (by rw [List.length_cons] at hfuel; omega)
      have hspelled : s.lexeme = name := by rw [State.lexeme, hlexeme, String.ofList_toList]
      refine ⟨(s.line, name) :: entries, s', ?_, by rw [List.map_cons, hmap], hs'⟩
      rw [parsePatternNames]
      simp only [bind, Except.bind, hconsume, hcomma, if_true, hskip, hentries, hspelled]
      rfl

/-- The text of a pattern, and what is behind it. -/
def patternText (names : List String) (rest : List Char) : List Char :=
  '[' :: ((", ".intercalate names).toList ++ ']' :: rest)

theorem lexes_patternText {context : Context} (hcontext : context = .parametersOpen ∨ context = .binder)
    (names : List String) (rest : List Char) :
    Lexes context (patternText names rest) .leftBracket ['[']
      ((", ".intercalate names).toList ++ ']' :: rest) := by
  rcases hcontext with rfl | rfl <;> exact lexes_symbol rfl rfl

theorem parsePattern_printed (hnames : ∀ name ∈ names, isName name.toList = true)
    (hrest : Lexes .patternClose rest t lexeme behind) (hopen : s.terminal = .leftBracket)
    (hs : s.cursor.rest = (", ".intercalate names).toList ++ ']' :: rest) (hfuel : names.length ≤ fuel) :
    ∃ entries s', parsePattern fuel s = .ok (entries, s') ∧ entries.map (·.2) = names ∧
      s'.Ahead .patternClose rest := by
  cases names with
  | nil =>
      have hclosing : Lexes .patternOpen (']' :: rest) .rightBracket [']'] rest := lexes_symbol rfl rfl
      obtain ⟨atClose, hconsume, hatClose⟩ := hclosing.expect hs hopen
      obtain ⟨hcloses, -, hbehindClose⟩ := hclosing.token hatClose
      obtain ⟨s', hclose, hs'⟩ := hrest.consume hbehindClose
      refine ⟨[], s', ?_, rfl, hs'⟩
      rw [parsePattern]
      simp only [bind, Except.bind, hconsume, hcloses, if_true, hclose]
      rfl
  | cons name names =>
      obtain ⟨hname, hnames⟩ := List.forall_mem_cons.mp hnames
      rw [toList_intercalate_cons, List.append_assoc] at hs
      have hfirst := lexes_patternName (.inl rfl) hname names rest
      obtain ⟨atName, hconsume, hatName⟩ := hfirst.expect hs hopen
      obtain ⟨hterminal, -, -⟩ := hfirst.token hatName
      obtain ⟨entries, s', hentries, hmap, hs'⟩ :=
        parsePatternNames_printed hrest names hnames name hname .patternOpen (.inl rfl) atName fuel hatName hfuel
      have hclosing : atName.terminal ≠ .rightBracket := by
        rw [hterminal]
        exact Terminal.noConfusion
      refine ⟨entries, s', ?_, hmap, hs'⟩
      rw [parsePattern]
      simp only [bind, Except.bind, hconsume, if_neg hclosing]
      exact hentries

/-- A parameter that is a pattern. -/
theorem parseParameter_printed {context : Context}
    (hcontext : context = .parametersOpen ∨ context = .binder)
    (hnames : ∀ name ∈ names, isName name.toList = true)
    (hrest : Lexes .patternClose rest t lexeme behind) (hs : s.Ahead context (patternText names rest))
    (hfuel : names.length ≤ fuel) :
    ∃ line entries s', parseParameter fuel s = .ok (.pattern line entries, s') ∧
      entries.map (·.2) = names ∧ s'.Ahead .patternClose rest := by
  obtain ⟨hopen, -, hbehind⟩ := (lexes_patternText hcontext names rest).token hs
  obtain ⟨entries, s', hpattern, hmap, hs'⟩ := parsePattern_printed hnames hrest hopen hbehind hfuel
  have hname : s.terminal ≠ .name := by
    rw [hopen]
    exact Terminal.noConfusion
  refine ⟨s.line, entries, s', ?_, hmap, hs'⟩
  rw [parseParameter]
  simp only [bind, Except.bind, if_neg hname, hpattern]
  rfl

/-- The text behind the parenthesis that opens the parameters, up to the arrow and what is behind it. -/
def parametersText (publics privates : List String) (rest : List Char) : List Char :=
  patternText publics (',' :: ' ' :: patternText privates (')' :: ' ' :: '=' :: '>' :: rest))

/-- The two patterns of a script are its parameters. -/
theorem parseParameterList_printed (hpublics : ∀ name ∈ publics, isName name.toList = true)
    (hprivates : ∀ name ∈ privates, isName name.toList = true) (hopen : s.terminal = .leftParen)
    (hs : s.cursor.rest = parametersText publics privates rest)
    (hfuel : publics.length + privates.length + 2 ≤ fuel) :
    ∃ line publicLine privateLine publicNames privateNames s',
      parseParameterList fuel s = .ok (.listed line
        [.pattern publicLine publicNames, .pattern privateLine privateNames], s') ∧
      publicNames.map (·.2) = publics ∧ privateNames.map (·.2) = privates ∧
      s'.terminal = .arrow ∧ s'.cursor.rest = rest := by
  obtain ⟨fuel, rfl⟩ : ∃ n, fuel = n + 2 := ⟨fuel - 2, by omega⟩
  have hpublicFuel : publics.length ≤ fuel + 1 := by omega
  have hprivateFuel : privates.length ≤ fuel := by omega
  -- the public names, behind which there is a comma
  have hfirst := lexes_patternText (.inl rfl) publics
    (',' :: ' ' :: patternText privates (')' :: ' ' :: '=' :: '>' :: rest))
  have hcomma : Lexes .patternClose (',' :: ' ' :: patternText privates (')' :: ' ' :: '=' :: '>' :: rest))
      .comma [','] (' ' :: patternText privates (')' :: ' ' :: '=' :: '>' :: rest)) := lexes_symbol rfl rfl
  obtain ⟨atFirst, hconsume, hatFirst⟩ := hfirst.expect hs hopen
  obtain ⟨publicLine, publicNames, atComma, hpublic, hpublicNames, hatComma⟩ :=
    parseParameter_printed (.inl rfl) hpublics hcomma hatFirst hpublicFuel
  obtain ⟨hcommaTerminal, -, hcommaBehind⟩ := hcomma.token hatComma
  -- the private names, behind which the list is closed
  have hsecond := lexes_patternText (.inr rfl) privates (')' :: ' ' :: '=' :: '>' :: rest)
  have hclosing : Lexes .patternClose (')' :: ' ' :: '=' :: '>' :: rest) .rightParen [')']
      (' ' :: '=' :: '>' :: rest) := lexes_symbol rfl rfl
  obtain ⟨atSecond, hskip, hatSecond⟩ := hsecond.space.consume hcommaBehind
  obtain ⟨privateLine, privateNames, atClose, hprivate, hprivateNames, hatClose⟩ :=
    parseParameter_printed (.inr rfl) hprivates hclosing hatSecond.of_space hprivateFuel
  obtain ⟨hcloseTerminal, -, hcloseBehind⟩ := hclosing.token hatClose
  have harrow : Lexes .parametersClose (['=', '>'] ++ rest) .arrow ['=', '>'] rest := lexes_of_lexeme? rfl rfl
  obtain ⟨s', hclose, hs'⟩ := harrow.space.expect hcloseBehind hcloseTerminal
  obtain ⟨harrowTerminal, -, harrowBehind⟩ := harrow.space.token hs'
  -- the parser takes the same steps
  have hnotEmpty : atFirst.terminal ≠ .rightParen := by
    rw [(hfirst.token hatFirst).1]
    exact Terminal.noConfusion
  have hlast : atClose.terminal ≠ .comma := by
    rw [hcloseTerminal]
    exact Terminal.noConfusion
  refine ⟨s.line, publicLine, privateLine, publicNames, privateNames, s', ?_, hpublicNames, hprivateNames,
    harrowTerminal, harrowBehind⟩
  rw [parseParameterList]
  simp only [bind, Except.bind, hconsume, if_neg hnotEmpty, parseParameters, hpublic, hcommaTerminal, if_true,
    hskip, hprivate, if_neg hlast, hclose]
  rfl

/-! ## Scripts -/

theorem patternParams_eq_ok {entries : List (Nat × String)} (hnodup : (entries.map (·.2)).Nodup)
    (seen : List String) (hseen : ∀ name ∈ entries.map (·.2), name ∉ seen) (index : Nat) :
    patternParams seen index entries = .ok (numbered index (entries.map (·.2))) := by
  induction entries generalizing seen index with
  | nil => rfl
  | cons entry entries ih =>
      obtain ⟨hnew, hnodup⟩ := List.nodup_cons.mp hnodup
      obtain ⟨hentry, hseen⟩ := List.forall_mem_cons.mp hseen
      have hrest : ∀ name ∈ entries.map (·.2), name ∉ entry.2 :: seen := by
        intro name hname hmem
        rcases List.mem_cons.mp hmem with rfl | hmem
        · exact hnew hname
        · exact hseen name hname hmem
      rw [patternParams, if_neg hentry, ih hnodup _ hrest]
      rfl

/-- Patterns without a name twice are the parameters of a circuit. -/
theorem Parameters.elaborate_patterns {publicNames privateNames : List (Nat × String)}
    (hpublics : publicNames.map (·.2) = publics) (hprivates : privateNames.map (·.2) = privates)
    (hnodup : (publics ++ privates).Nodup) (line publicLine privateLine : Nat) :
    (Parameters.listed line
        [.pattern publicLine publicNames, .pattern privateLine privateNames]).elaborate =
      .ok (numbered 0 publics, numbered 0 privates) := by
  obtain ⟨hpublic, hprivate, hdisjoint⟩ := List.nodup_append.mp hnodup
  subst hpublics hprivates
  have hfirst := patternParams_eq_ok hpublic [] (fun _ _ => List.not_mem_nil) 0
  have hsecond := patternParams_eq_ok hprivate (publicNames.map (·.2))
    (fun name hname hmem => hdisjoint name hmem name hname rfl) 0
  rw [Parameters.elaborate]
  simp only [groupParams, hfirst, map_name_numbered, hsecond, bind, Except.bind]
  rfl

/-- The script that asserts the expression with a text. -/
def asserting (publics privates : List String) (body : String) : String :=
  "([" ++ ", ".intercalate publics ++ "], [" ++ ", ".intercalate privates ++ "]) => " ++ body

theorem toList_asserting (publics privates : List String) (body : String) :
    (asserting publics privates body).toList =
      '(' :: parametersText publics privates (' ' :: body.toList) := by
  simp [asserting, String.toList_append, parametersText, patternText]

theorem length_le_intercalate (names : List String) :
    names.length ≤ (", ".intercalate names).toList.length + 1 := by
  cases names with
  | nil => exact Nat.zero_le _
  | cons name names =>
      have hmore : names.length ≤ (moreNames names).length := by
        induction names with
        | nil => exact Nat.zero_le _
        | cons next names ih =>
            simp only [moreNames_cons, List.length_cons, List.length_append]
            omega
      rw [toList_intercalate_cons, List.length_append, List.length_cons]
      omega

/-- There is fuel for the parameters and for the body. -/
theorem parseFuel_asserting (publics privates : List String) (body : String) :
    publics.length + privates.length + 2 ≤
        parseFuel (asserting publics privates body).toList.length ∧
      5 * body.toList.length + 3 ≤ parseFuel (asserting publics privates body).toList.length := by
  have hlength : (asserting publics privates body).toList.length =
      (", ".intercalate publics).toList.length + (", ".intercalate privates).toList.length +
        body.toList.length + 12 := by
    rw [toList_asserting, parametersText, patternText, patternText]
    simp only [List.length_cons, List.length_append]
    omega
  have hpublics := length_le_intercalate publics
  have hprivates := length_le_intercalate privates
  rw [parseFuel, hlength]
  omega

/-- What the grammar makes of a script with an expression for a body. -/
theorem definition_parse_asserting {scopes : Scopes}
    (hname : ∀ name ∈ publics ++ privates, isName name.toList = true) {body : String} {e : Expr}
    (hclimbs : Climbs scopes 0 body.toList e) :
    ∃ line publicLine privateLine publicNames privateNames term,
      Definition.parse (asserting publics privates body).toList =
        .ok ⟨.listed line [.pattern publicLine publicNames, .pattern privateLine privateNames],
          .expression term⟩ ∧
      publicNames.map (·.2) = publics ∧ privateNames.map (·.2) = privates ∧
      term.elaborate scopes = .ok e := by
  obtain ⟨hparametersFuel, hbodyFuel⟩ := parseFuel_asserting publics privates body
  obtain ⟨hpublics, hprivates⟩ := List.forall_mem_append.mp hname
  have hopen : Lexes .start (asserting publics privates body).toList .leftParen ['(']
      (parametersText publics privates (' ' :: body.toList)) := by
    rw [toList_asserting]
    exact lexes_symbol rfl rfl
  obtain ⟨s, hnext, hterminal, hbehind⟩ : ∃ s : State,
      Cursor.next .start none ⟨(asserting publics privates body).toList, ⟨1, 1⟩⟩ = .ok (s.token, s.cursor) ∧
        s.terminal = .leftParen ∧
        s.cursor.rest = parametersText publics privates (' ' :: body.toList) := by
    obtain ⟨place, cursor, hbehind, hnext⟩ := hopen none ⟨1, 1⟩
    exact ⟨⟨_, cursor⟩, hnext, rfl, hbehind⟩
  obtain ⟨line, publicLine, privateLine, publicNames, privateNames, atArrow, hparameters, hpublicNames,
    hprivateNames, harrow, harrowBehind⟩ :=
      parseParameterList_printed hpublics hprivates hterminal hbehind hparametersFuel
  -- the body, up to the end of the text
  obtain ⟨first, lexeme, behind, hbrace, hfirst⟩ := hclimbs.opens .arrow [] (.inr rfl) rfl
  rw [List.append_nil] at hfirst
  obtain ⟨atBody, hconsume, hatBody⟩ := hfirst.space.expect harrowBehind harrow
  have hexpression : atBody.terminal ≠ .leftBrace := by
    rw [(hfirst.space.token hatBody).1]
    exact hbrace
  have hatSource : atBody.Ahead .arrow (body.toList ++ []) := by
    rw [List.append_nil]
    exact hatBody.of_space
  obtain ⟨phrase, atEnd, hbody, hatEnd, hterm⟩ :=
    parseExpr_of_climbs hclimbs (.inr rfl) hatSource rfl rfl (lexes_nil .operand) hbodyFuel
  have hend := ((lexes_nil .operand).token hatEnd).1
  refine ⟨line, publicLine, privateLine, publicNames, privateNames, phrase.term, ?_, hpublicNames,
    hprivateNames, hterm⟩
  have hdefinition : parseDefinition (parseFuel (asserting publics privates body).toList.length) s =
      .ok (⟨.listed line [.pattern publicLine publicNames, .pattern privateLine privateNames],
        .expression phrase.term⟩, atEnd) := by
    rw [parseDefinition, hterminal]
    simp only [bind, Except.bind, hparameters, hconsume, parseArrowBody, if_neg hexpression, hbody]
    rfl
  have hfinal : atEnd.terminal ≠ .semicolon := by
    rw [hend]
    exact Terminal.noConfusion
  rw [Definition.parse, hnext]
  simp only [bind, Except.bind, hdefinition, if_neg hfinal, if_pos hend]

/-- **Scripts with an expression for a body.** Where the text of the body climbs in every scope that has
the parameters, the script is the circuit that asserts what the text stands for. -/
theorem parse_asserting (hnames : ∀ name ∈ publics ++ privates, isName name.toList = true)
    (hnodup : (publics ++ privates).Nodup) {body : String} {e : Expr}
    (hclimbs : ∀ scopes : Scopes, (∀ name ∈ publics ++ privates, (scopes.lookup? name).isSome) →
      Climbs scopes 0 body.toList e) :
    Circuit.parse (asserting publics privates body) =
      .ok ⟨numbered 0 publics, numbered 0 privates, [.assert e none]⟩ := by
  have hvisible : ∀ name ∈ publics ++ privates,
      (Scopes.lookup? name [(numbered 0 publics ++ numbered 0 privates).map fun p => (p.name, false)]).isSome := by
    intro name hname
    have hmem : name ∈ (numbered 0 publics ++ numbered 0 privates).map (·.name) := by
      rw [List.map_append, map_name_numbered, map_name_numbered]
      exact hname
    obtain ⟨p, hp, rfl⟩ := List.mem_map.mp hmem
    have hlookup : (List.lookup p.name
        ((numbered 0 publics ++ numbered 0 privates).map fun p => (p.name, false))).isSome :=
      List.lookup_isSome_iff.mpr ⟨_, List.mem_map_of_mem hp, beq_self_eq_true _⟩
    obtain ⟨isMutable, hsome⟩ := Option.isSome_iff_exists.mp hlookup
    rw [Scopes.lookup?, hsome]
    rfl
  obtain ⟨line, publicLine, privateLine, publicNames, privateNames, term, hparse, hpublics, hprivates,
    hterm⟩ := definition_parse_asserting hnames (hclimbs _ hvisible)
  have hparameters := Parameters.elaborate_patterns hpublics hprivates hnodup line publicLine privateLine
  rw [Circuit.parse, hparse]
  dsimp only
  rw [Definition.elaborate]
  simp only [bind, Except.bind, hparameters, Body.elaborate, hterm]
  rfl

/-- **Round trip.** An operation on parameters, printed with single spaces and only the parentheses that
the precedence of its operators calls for, is read back: the script that asserts it is the circuit with
these parameters whose one statement asserts that operation. -/
theorem parse_printed (publics privates : List String) (operation : Operation)
    (hnames : ∀ name ∈ publics ++ privates, isName name.toList = true)
    (hnodup : (publics ++ privates).Nodup) (hover : operation.Over (publics ++ privates)) :
    Circuit.parse (operation.script publics privates) =
      .ok ⟨numbered 0 publics, numbered 0 privates, [.assert operation.expr none]⟩ :=
  parse_asserting hnames hnodup fun _ hvisible =>
    climbs_source (fun name hname => ⟨hnames name hname, hvisible name hname⟩) operation hover 0

end

/-- An operation that needs one pair of parentheses. -/
def mixedOperation : Operation :=
  .binary .or
    (.binary .lt
      (.binary .sub (.ident "a") (.binary .mul (.binary .sub (.ident "b") (.number 1)) (.ident "n")))
      (.ident "n"))
    (.binary .eq (.ident "a") (.ident "b"))

/-- The text of the operation, and what it is read as. -/
theorem parse_printed_mixed :
    mixedOperation.script ["n"] ["a", "b"] = "([n], [a, b]) => a - (b - 1) * n < n || a == b" ∧
      Circuit.parse (mixedOperation.script ["n"] ["a", "b"]) =
        .ok ⟨[⟨"n", 0⟩], [⟨"a", 0⟩, ⟨"b", 1⟩], [.assert mixedOperation.expr none]⟩ := by
  have hname : ∀ name ∈ ["n", "a", "b"], name ∈ ["n"] ++ ["a", "b"] ∧ (stripMut name).2 = false ∧
      name ≠ "true" ∧ name ≠ "false" := by decide
  have hn : Operation.Over (["n"] ++ ["a", "b"]) (.ident "n") := hname "n" (by decide)
  have ha : Operation.Over (["n"] ++ ["a", "b"]) (.ident "a") := hname "a" (by decide)
  have hb : Operation.Over (["n"] ++ ["a", "b"]) (.ident "b") := hname "b" (by decide)
  have hone : Operation.Over (["n"] ++ ["a", "b"]) (.number 1) := Nat.one_lt_pow (by decide) (by decide)
  have hover : mixedOperation.Over (["n"] ++ ["a", "b"]) := ⟨⟨⟨ha, ⟨hb, hone⟩, hn⟩, hn⟩, ha, hb⟩
  exact ⟨by decide +kernel, parse_printed ["n"] ["a", "b"] mixedOperation (by decide) (by decide) hover⟩

end ArrowCircuit.Script
