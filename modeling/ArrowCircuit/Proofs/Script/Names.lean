import ArrowCircuit.Proofs.Outcome
import ArrowCircuit.Script.Parser

/-!
# Names of scripts

A name of a script is a word: letters, digits, underscores and dollar signs, at least one of them.  The
lexer cuts names out that way, and the parser passes on what it was given.  Every parser function keeps
the look-ahead token in that form and leaves only words behind in the phrase it reads.
-/

namespace ArrowCircuit.Script

/-- Characters that can be a name, or a part of one. -/
def IsWord (cs : List Char) : Prop := cs ≠ [] ∧ ∀ c ∈ cs, isNamePart c = true

instance (cs : List Char) : Decidable (IsWord cs) :=
  decidable_of_iff (cs ≠ [] ∧ cs.all isNamePart = true) (by rw [IsWord, List.all_eq_true])

/-! ## Terms and statements -/

mutual

/-- The names in a term are words. -/
def Term.Named : Term → Prop
  | .ident _ name => IsWord name.toList
  | .number .. | .string .. | .bool .. => True
  | .array _ elements => Term.NamedAll elements
  | .binary _ _ left right => left.Named ∧ right.Named
  | .unary _ _ operand => operand.Named
  | .step _ _ target => target.Named
  | .assign _ _ target value => target.Named ∧ value.Named
  | .ternary _ condition consequent alternate =>
    condition.Named ∧ consequent.Named ∧ alternate.Named
  | .index _ object position => object.Named ∧ position.Named
  | .property _ object name => object.Named ∧ IsWord name.toList
  | .call _ callee arguments => callee.Named ∧ Term.NamedAll arguments

/-- The names in a list of terms are words. -/
def Term.NamedAll : List Term → Prop
  | [] => True
  | term :: rest => term.Named ∧ Term.NamedAll rest

end

/-- The names in an initial value are words. -/
def Declarator.Named (d : Declarator) : Prop := ∀ term ∈ d.initial, term.Named

/-- The names in the first part of a loop head are words. -/
def LoopInit.Named : LoopInit → Prop
  | .absent => True
  | .declaration d => d.Named
  | .expression term => term.Named

mutual

/-- The names in the terms of a statement are words. -/
def Stmt.Named : Stmt → Prop
  | .declaration _ declarators => ∀ d ∈ declarators, d.Named
  | .branch _ condition consequent none => condition.Named ∧ consequent.Named
  | .branch _ condition consequent (some alternate) =>
    condition.Named ∧ consequent.Named ∧ alternate.Named
  | .loop _ init test update body =>
    init.Named ∧ (∀ t ∈ test, t.term.Named) ∧ (∀ term ∈ update, term.Named) ∧ body.Named
  | .whileLoop _ test body => test.Named ∧ body.Named
  | .result _ value => ∀ term ∈ value, term.Named
  | .block _ statements => Stmt.NamedAll statements
  | .expression _ term => term.Named

/-- The names in the terms of a list of statements are words. -/
def Stmt.NamedAll : List Stmt → Prop
  | [] => True
  | statement :: rest => statement.Named ∧ Stmt.NamedAll rest

end

/-- The names in the terms of a body are words. -/
def Body.Named : Body → Prop
  | .block statements => Stmt.NamedAll statements
  | .expression term => term.Named

/-! ## The lexer -/

theorem isWord_takeWhile {c : Char} (h : isNameStart c = true) (rest : List Char) :
    IsWord (c :: rest.takeWhile isNamePart) := by
  refine ⟨List.cons_ne_nil _ _, List.forall_mem_cons.mpr ⟨?_, ?_⟩⟩
  · rw [isNamePart, h, Bool.true_or]
  · exact fun d hd => List.all_eq_true.mp List.all_takeWhile d hd

theorem take_length_takeWhile (p : Char → Bool) (cs : List Char) :
    cs.take (cs.takeWhile p).length = cs.takeWhile p :=
  (List.prefix_iff_eq_take.mp (List.takeWhile_prefix p)).symm

theorem symbol?_ne_name {accepts : Terminal → Bool} {cs : List Char} {n : Nat} :
    symbol? accepts cs ≠ some (.name, n) := by
  have hsymbols : ∀ s ∈ Terminal.symbols, s.2 ≠ .name := by decide
  intro h
  obtain ⟨s, hs, hsn⟩ := Option.map_eq_some_iff.mp h
  exact hsymbols s (List.mem_of_find?_eq_some hs) (congrArg Prod.fst hsn)

/-- The lexeme of a name is a word. -/
theorem isWord_of_lexeme? {accepts : Terminal → Bool} {cs : List Char} {n : Nat}
    (h : lexeme? accepts cs = some (.name, n)) : IsWord (cs.take n) := by
  unfold lexeme? at h
  split at h
  · cases h
  · rename_i c rest
    split at h
    · rename_i hstart
      obtain ⟨t, -, ht⟩ := Option.map_eq_some_iff.mp h
      cases ht
      rw [List.length_cons, List.take_succ_cons, take_length_takeWhile]
      exact isWord_takeWhile hstart rest
    · split at h
      · split at h <;> cases h
      · split at h
        · split at h
          · obtain ⟨k, -, hk⟩ := Option.map_eq_some_iff.mp h
            cases hk
          · cases h
        · exact absurd h symbol?_ne_name

/-- A token that is a name is a word. -/
def Token.Named (t : Token) : Prop := t.terminal = .name → IsWord t.lexeme

theorem Cursor.yields_next (context : Context) (last : Option Token) (cursor : Cursor) :
    Yields (fun p => p.1.Named) (cursor.next context last) := by
  unfold Cursor.next
  dsimp only
  split
  · exact .ok nofun
  · split
    · rename_i t n hlexeme
      refine .ok fun ht => ?_
      cases ht
      exact isWord_of_lexeme? hlexeme
    · split <;> exact .error _

/-! ## The state of the parser -/

/-- The look-ahead token of a state is a word if it is a name. -/
def State.Named (s : State) : Prop := s.token.Named

namespace State

theorem isWord_lexeme {s : State} (hs : s.Named) (h : s.terminal = .name) :
    IsWord s.lexeme.toList := by
  rw [lexeme, String.toList_ofList]
  exact hs h

theorem yields_consume (s : State) (context : Context) : Yields State.Named (s.consume context) := by
  intro s' h
  unfold consume at h
  split at h
  · rename_i hnext
    cases h
    exact Cursor.yields_next context _ _ _ hnext
  · cases h

theorem yields_expect (s : State) (t : Terminal) (context : Context) :
    Yields State.Named (s.expect t context) := by
  rw [expect]
  split
  · exact s.yields_consume context
  · exact .error _

/-- A consumed name was a word. -/
theorem yields_expect_name {s : State} (hs : s.Named) (context : Context) :
    Yields (fun s' => IsWord s.lexeme.toList ∧ s'.Named) (s.expect .name context) := by
  rw [expect]
  split
  · rename_i hname
    exact fun s' h => ⟨isWord_lexeme hs hname, s.yields_consume context s' h⟩
  · exact .error _

end State

/-- What a parser function leaves behind: a phrase with a property, and a look-ahead token that is a
word if it is a name. -/
def Reads {α : Type} (Q : α → Prop) (r : Parse (α × State)) : Prop :=
  Yields (fun p => Q p.1 ∧ p.2.Named) r

namespace Reads

variable {α β : Type} {P : α → Prop} {Q : β → Prop}

theorem ok {a : α} {s : State} (ha : P a) (hs : s.Named) : Reads P (.ok (a, s)) := Yields.ok ⟨ha, hs⟩

theorem reject (s : State) : Reads P s.reject := Yields.error _

theorem bind {r : Parse (α × State)} {g : α × State → Parse (β × State)} (h : Reads P r)
    (hg : ∀ a s, P a → s.Named → Reads Q (g (a, s))) : Reads Q (r >>= g) :=
  Yields.bind h fun p hp => hg p.1 p.2 hp.1 hp.2

/-- Behind a step that reads no phrase. -/
theorem after {r : Parse State} {g : State → Parse (β × State)} (h : Yields State.Named r)
    (hg : ∀ s, s.Named → Reads Q (g s)) : Reads Q (r >>= g) :=
  Yields.bind h hg

theorem consume {s : State} {context : Context} {g : State → Parse (β × State)}
    (hg : ∀ s, s.Named → Reads Q (g s)) : Reads Q (s.consume context >>= g) :=
  .after (s.yields_consume context) hg

theorem expect {s : State} {t : Terminal} {context : Context} {g : State → Parse (β × State)}
    (hg : ∀ s, s.Named → Reads Q (g s)) : Reads Q (s.expect t context >>= g) :=
  .after (s.yields_expect t context) hg

end Reads

/-! ## Expressions -/

/-- What the functions that read expressions leave behind, where calls are nested `fuel` deep at
most. -/
structure ReadsTerms (fuel : Nat) : Prop where
  expr : ∀ s : State, s.Named → Reads (·.term.Named) (parseExpr fuel s)
  conditional : ∀ s : State, s.Named → Reads (·.term.Named) (parseConditional fuel s)
  binary : ∀ level (s : State), s.Named → Reads (·.term.Named) (parseBinary fuel level s)
  operators : ∀ level left (s : State), left.term.Named → s.Named →
    Reads (·.term.Named) (parseOperators fuel level left s)
  unary : ∀ s : State, s.Named → Reads (·.term.Named) (parseUnary fuel s)
  members : ∀ object (s : State), object.term.Named → s.Named →
    Reads (·.term.Named) (parseMembers fuel object s)
  primary : ∀ s : State, s.Named → Reads (·.term.Named) (parsePrimary fuel s)
  arguments : ∀ closing (s : State), s.Named → Reads Term.NamedAll (parseArguments fuel closing s)
  moreArguments : ∀ closing (s : State), s.Named →
    Reads Term.NamedAll (parseMoreArguments fuel closing s)

namespace ReadsTerms

theorem zero : ReadsTerms 0 where
  expr s _ := .reject s
  conditional s _ := .reject s
  binary _ s _ := .reject s
  operators _ _ s _ _ := .reject s
  unary s _ := .reject s
  members _ s _ _ := .reject s
  primary s _ := .reject s
  arguments _ s _ := .reject s
  moreArguments _ s _ := .reject s

variable {fuel : Nat} (ih : ReadsTerms fuel) {s : State} (hs : s.Named)

include ih hs

theorem expr_succ : Reads (·.term.Named) (parseExpr (fuel + 1) s) := by
  rw [parseExpr]
  refine (ih.conditional s hs).bind fun left s hleft hs => ?_
  dsimp only
  split
  · exact .ok hleft hs
  · exact .consume fun s hs => (ih.expr s hs).bind fun right s hright hs => .ok ⟨hleft, hright⟩ hs

theorem conditional_succ : Reads (·.term.Named) (parseConditional (fuel + 1) s) := by
  rw [parseConditional]
  refine (ih.binary 0 s hs).bind fun condition s hcondition hs => ?_
  dsimp only
  split
  · refine .consume fun s hs => (ih.expr s hs).bind fun consequent s hconsequent hs => ?_
    refine .expect fun s hs => (ih.expr s hs).bind fun alternate s halternate hs => ?_
    exact .ok ⟨hcondition, hconsequent, halternate⟩ hs
  · exact .ok hcondition hs

theorem binary_succ (level : Nat) : Reads (·.term.Named) (parseBinary (fuel + 1) level s) := by
  rw [parseBinary]
  exact (ih.unary s hs).bind fun left s hleft hs => ih.operators level left s hleft hs

theorem operators_succ (level : Nat) {left : Phrase} (hleft : left.term.Named) :
    Reads (·.term.Named) (parseOperators (fuel + 1) level left s) := by
  rw [parseOperators.eq_def]
  dsimp only
  split
  · exact .ok hleft hs
  · split
    · exact .ok hleft hs
    · refine .consume fun s hs => (ih.binary _ s hs).bind fun right s hright hs => ?_
      exact ih.operators level _ s ⟨hleft, hright⟩ hs

theorem unary_succ : Reads (·.term.Named) (parseUnary (fuel + 1) s) := by
  rw [parseUnary.eq_def]
  dsimp only
  split
  · exact .consume fun s hs => (ih.unary s hs).bind fun operand s hoperand hs => .ok hoperand hs
  · exact .consume fun s hs => (ih.unary s hs).bind fun target s htarget hs => .ok htarget hs
  · refine (ih.primary s hs).bind fun object s hobject hs => ?_
    refine (ih.members object s hobject hs).bind fun operand s hoperand hs => ?_
    dsimp only
    split
    · exact .ok hoperand hs
    · exact .consume fun s hs => .ok hoperand hs

theorem members_succ {object : Phrase} (hobject : object.term.Named) :
    Reads (·.term.Named) (parseMembers (fuel + 1) object s) := by
  rw [parseMembers.eq_def]
  dsimp only
  split
  · refine .consume fun s hs => (ih.expr s hs).bind fun position s hposition hs => ?_
    exact .expect fun s hs => ih.members _ s ⟨hobject, hposition⟩ hs
  · refine .consume fun s hs => (State.yields_expect_name hs _).bind fun s' hs' => ?_
    exact ih.members _ s' ⟨hobject, hs'.1⟩ hs'.2
  · refine .consume fun s hs => (ih.arguments _ s hs).bind fun arguments s harguments hs => ?_
    exact ih.members _ s ⟨hobject, harguments⟩ hs
  · exact .ok hobject hs

theorem primary_succ : Reads (·.term.Named) (parsePrimary (fuel + 1) s) := by
  rw [parsePrimary.eq_def]
  dsimp only
  split
  · rename_i hname
    exact .consume fun s' hs' => .ok (State.isWord_lexeme hs hname) hs'
  · exact .consume fun s' hs' => .ok trivial hs'
  · exact .consume fun s' hs' => .ok trivial hs'
  · exact .consume fun s' hs' => .ok trivial hs'
  · exact .consume fun s' hs' => .ok trivial hs'
  · refine .consume fun s hs => (ih.expr s hs).bind fun inner s hinner hs => ?_
    exact .expect fun s hs => .ok hinner hs
  · refine .consume fun s hs => (ih.arguments _ s hs).bind fun elements s helements hs => ?_
    exact .ok helements hs
  · exact .reject s

theorem arguments_succ (closing : Terminal) :
    Reads Term.NamedAll (parseArguments (fuel + 1) closing s) := by
  rw [parseArguments.eq_def]
  dsimp only
  split
  · exact .consume fun s hs => .ok trivial hs
  · exact ih.moreArguments closing s hs

theorem moreArguments_succ (closing : Terminal) :
    Reads Term.NamedAll (parseMoreArguments (fuel + 1) closing s) := by
  rw [parseMoreArguments]
  refine (ih.expr s hs).bind fun first s hfirst hs => ?_
  dsimp only
  split
  · refine .consume fun s hs => (ih.moreArguments closing s hs).bind fun rest s hrest hs => ?_
    exact .ok ⟨hfirst, hrest⟩ hs
  · exact .expect fun s hs => .ok ⟨hfirst, trivial⟩ hs

end ReadsTerms

/-- **Expressions.** Whatever the depth of calls, the terms that are read hold words for names. -/
theorem readsTerms (fuel : Nat) : ReadsTerms fuel := by
  induction fuel with
  | zero => exact .zero
  | succ fuel ih =>
      exact {
        expr := fun _ hs => ih.expr_succ hs
        conditional := fun _ hs => ih.conditional_succ hs
        binary := fun level _ hs => ih.binary_succ hs level
        operators := fun level _ _ hleft hs => ih.operators_succ hs level hleft
        unary := fun _ hs => ih.unary_succ hs
        members := fun _ _ hobject hs => ih.members_succ hs hobject
        primary := fun _ hs => ih.primary_succ hs
        arguments := fun closing _ hs => ih.arguments_succ hs closing
        moreArguments := fun closing _ hs => ih.moreArguments_succ hs closing }

/-- An expression with any fuel. -/
theorem reads_parseExpr (fuel : Nat) {s : State} (hs : s.Named) :
    Reads (·.term.Named) (parseExpr fuel s) :=
  (readsTerms fuel).expr s hs

/-! ## Declarations and statements -/

theorem reads_parsePatternNames (fuel : Nat) (s : State) :
    Reads (fun _ => True) (parsePatternNames fuel s) := by
  induction fuel generalizing s with
  | zero => exact .reject s
  | succ fuel ih =>
      rw [parsePatternNames]
      refine .expect fun s hs => ?_
      dsimp only
      split
      · exact .consume fun s hs => (ih s).bind fun rest s _ hs => .ok trivial hs
      · exact .expect fun s hs => .ok trivial hs

theorem reads_parsePattern (fuel : Nat) (s : State) :
    Reads (fun _ => True) (parsePattern fuel s) := by
  rw [parsePattern]
  refine .expect fun s hs => ?_
  split
  · exact .consume fun s hs => .ok trivial hs
  · exact reads_parsePatternNames fuel s

theorem reads_parseDeclarator (fuel : Nat) (s : State) :
    Reads Declarator.Named (parseDeclarator fuel s) := by
  -- what follows the binder does not depend on which kind it is
  have hinitial : ∀ (binder : Binder) (s' : State), s'.Named → Reads Declarator.Named
      (if s'.terminal = .assign then do
        let s' ← s'.consume .operator
        let p ← parseExpr fuel s'
        return (⟨s.line, binder, some p.1.term⟩, p.2)
      else return (⟨s.line, binder, none⟩, s')) := by
    intro binder s' hs'
    split
    · refine .consume fun s hs => (reads_parseExpr fuel hs).bind fun initial s hinitial hs => ?_
      refine .ok ?_ hs
      rintro term ⟨⟩
      exact hinitial
    · exact .ok nofun hs'
  rw [parseDeclarator]
  dsimp only
  split
  · exact .consume fun s' hs' => hinitial _ s' hs'
  · exact (reads_parsePattern fuel s).bind fun _ s' _ hs' => hinitial _ s' hs'

theorem reads_parseDeclarators (fuel : Nat) (s : State) :
    Reads (fun declarators => ∀ d ∈ declarators, d.Named) (parseDeclarators fuel s) := by
  induction fuel generalizing s with
  | zero => exact .reject s
  | succ fuel ih =>
      rw [parseDeclarators]
      refine (reads_parseDeclarator fuel s).bind fun first s hfirst hs => ?_
      dsimp only
      split
      · refine .consume fun s hs => (ih s).bind fun rest s hrest hs => ?_
        exact .ok (List.forall_mem_cons.mpr ⟨hfirst, hrest⟩) hs
      · exact .ok (List.forall_mem_singleton.mpr hfirst) hs

theorem yields_parseEnd {s : State} (hs : s.Named) : Yields State.Named (parseEnd s) := by
  rw [parseEnd]
  split
  · exact s.yields_consume _
  · exact .ok hs

theorem reads_parseLoopInit (fuel : Nat) {s : State} (hs : s.Named) :
    Reads LoopInit.Named (parseLoopInit fuel s) := by
  rw [parseLoopInit]
  split
  · exact .consume fun s hs => .ok trivial hs
  · split
    · refine .consume fun s hs => (reads_parseDeclarator fuel s).bind fun d s hd hs => ?_
      exact .expect fun s hs => .ok hd hs
    · refine (reads_parseExpr fuel hs).bind fun phrase s hphrase hs => ?_
      exact .expect fun s hs => .ok hphrase hs

theorem reads_parseLoopTest (fuel : Nat) {s : State} (hs : s.Named) :
    Reads (fun test => ∀ t ∈ test, t.term.Named) (parseLoopTest fuel s) := by
  rw [parseLoopTest]
  split
  · exact .consume fun s hs => .ok nofun hs
  · refine (reads_parseExpr fuel hs).bind fun phrase s hphrase hs => ?_
    refine .expect fun s hs => .ok ?_ hs
    rintro t ⟨⟩
    exact hphrase

theorem reads_parseLoopUpdate (fuel : Nat) {s : State} (hs : s.Named) :
    Reads (fun update => ∀ term ∈ update, term.Named) (parseLoopUpdate fuel s) := by
  rw [parseLoopUpdate]
  split
  · exact .consume fun s hs => .ok nofun hs
  · refine (reads_parseExpr fuel hs).bind fun phrase s hphrase hs => ?_
    refine .expect fun s hs => .ok ?_ hs
    rintro t ⟨⟩
    exact hphrase

/-- What the functions that read statements leave behind. -/
structure ReadsStmts (fuel : Nat) : Prop where
  statement : ∀ s : State, s.Named → Reads Stmt.Named (parseStatement fuel s)
  block : ∀ s : State, Reads Stmt.NamedAll (parseBlock fuel s)
  statements : ∀ s : State, s.Named → Reads Stmt.NamedAll (parseStatements fuel s)

namespace ReadsStmts

variable {fuel : Nat} (ih : ReadsStmts fuel) {s : State}

include ih

theorem statement_succ (hs : s.Named) : Reads Stmt.Named (parseStatement (fuel + 1) s) := by
  have hdeclaration : Reads Stmt.Named (do
      let s' ← s.consume .binder
      let p ← parseDeclarators fuel s'
      let s' ← parseEnd p.2
      return (.declaration s.line p.1, s')) :=
    .consume fun s _ => (reads_parseDeclarators fuel s).bind fun declarators s hdeclarators hs =>
      .after (yields_parseEnd hs) fun s hs => .ok hdeclarators hs
  rw [parseStatement.eq_def]
  dsimp only
  split
  · exact hdeclaration
  · exact hdeclaration
  · exact hdeclaration
  · refine .consume fun s _ => .expect fun s hs => ?_
    refine (reads_parseExpr fuel hs).bind fun condition s hcondition _ => .expect fun s hs => ?_
    refine (ih.statement s hs).bind fun consequent s hconsequent hs => ?_
    dsimp only
    split
    · refine .consume fun s hs => (ih.statement s hs).bind fun alternate s halternate hs => ?_
      exact .ok ⟨hcondition, hconsequent, halternate⟩ hs
    · exact .ok ⟨hcondition, hconsequent⟩ hs
  · refine .consume fun s _ => .expect fun s hs => ?_
    refine (reads_parseLoopInit fuel hs).bind fun init s hinit hs => ?_
    refine (reads_parseLoopTest fuel hs).bind fun test s htest hs => ?_
    refine (reads_parseLoopUpdate fuel hs).bind fun update s hupdate hs => ?_
    refine (ih.statement s hs).bind fun body s hbody hs => ?_
    exact .ok ⟨hinit, htest, hupdate, hbody⟩ hs
  · refine .consume fun s _ => .expect fun s hs => ?_
    refine (reads_parseExpr fuel hs).bind fun test s htest _ => .expect fun s hs => ?_
    exact (ih.statement s hs).bind fun body s hbody hs => .ok ⟨htest, hbody⟩ hs
  · refine .consume fun s hs => ?_
    split
    · refine (reads_parseExpr fuel hs).bind fun value s hvalue hs => ?_
      refine .after (yields_parseEnd hs) fun s hs => .ok ?_ hs
      rintro term ⟨⟩
      exact hvalue
    · exact .after (yields_parseEnd hs) fun s hs => .ok nofun hs
  · exact (ih.block s).bind fun statements s hstatements hs => .ok hstatements hs
  · split
    · refine (reads_parseExpr fuel hs).bind fun phrase s hphrase hs => ?_
      exact .after (yields_parseEnd hs) fun s hs => .ok hphrase hs
    · exact .reject s

theorem block_succ : Reads Stmt.NamedAll (parseBlock (fuel + 1) s) := by
  rw [parseBlock]
  exact .expect fun s hs => ih.statements s hs

theorem statements_succ (hs : s.Named) : Reads Stmt.NamedAll (parseStatements (fuel + 1) s) := by
  rw [parseStatements.eq_def]
  dsimp only
  split
  · exact .consume fun s hs => .ok trivial hs
  · refine (ih.statement s hs).bind fun first s hfirst hs => ?_
    exact (ih.statements s hs).bind fun rest s hrest hs => .ok ⟨hfirst, hrest⟩ hs

end ReadsStmts

/-- **Statements.** Whatever the depth of calls, the statements that are read hold words for names. -/
theorem readsStmts (fuel : Nat) : ReadsStmts fuel := by
  induction fuel with
  | zero =>
      exact {
        statement := fun s _ => .reject s
        block := fun s => .reject s
        statements := fun s _ => .reject s }
  | succ fuel ih =>
      exact {
        statement := fun _ hs => ih.statement_succ hs
        block := fun _ => ih.block_succ
        statements := fun _ hs => ih.statements_succ hs }

/-! ## The function -/

theorem reads_parseArrowBody (fuel : Nat) {s : State} (hs : s.Named) :
    Reads Body.Named (parseArrowBody fuel s) := by
  rw [parseArrowBody]
  split
  · exact ((readsStmts fuel).block s).bind fun statements s hstatements hs => .ok hstatements hs
  · exact (reads_parseExpr fuel hs).bind fun phrase s hphrase hs => .ok hphrase hs

theorem yields_parseDefinition (fuel : Nat) (s : State) :
    Yields (fun p => p.1.body.Named) (parseDefinition fuel s) := by
  rw [parseDefinition]
  split
  · refine .bind_any fun s => (s.yields_expect _ _).bind fun s hs => ?_
    exact Yields.bind (reads_parseArrowBody fuel hs) fun p hp => .ok hp.1
  · have hblock : ∀ s : State, Yields (fun p => p.1.body.Named) (do
        let p ← parseParameterList fuel s
        let q ← parseBlock fuel p.2
        return ((⟨p.1, .block q.1⟩ : Definition), q.2)) :=
      fun s => .bind_any fun p => Yields.bind ((readsStmts fuel).block _) fun p hp => .ok hp.1
    refine .bind_any fun s => ?_
    dsimp only
    split
    · exact .bind_any fun s => hblock s
    · exact hblock s
  · refine .bind_any fun p => (State.yields_expect _ _ _).bind fun s hs => ?_
    exact Yields.bind (reads_parseArrowBody fuel hs) fun p hp => .ok hp.1

/-- **Scripts.** The names in the body of a script that was read are words. -/
theorem named_of_parse {text : List Char} {d : Definition} (h : Definition.parse text = .ok d) :
    d.body.Named := by
  suffices hparse : Yields (fun d => d.body.Named) (Definition.parse text) from hparse d h
  unfold Definition.parse
  refine .bind_any fun start => (yields_parseDefinition _ _).bind fun p hp => ?_
  -- a semicolon may follow the function, and then the text has to end
  have hend : ∀ s : State, Yields (fun d => d.body.Named)
      (if s.terminal = .endOfText then .ok p.1 else s.reject) := by
    intro s
    split
    · exact .ok hp
    · exact .error _
  dsimp only
  split
  · exact .bind_any fun s => hend s
  · exact hend p.2

end ArrowCircuit.Script
