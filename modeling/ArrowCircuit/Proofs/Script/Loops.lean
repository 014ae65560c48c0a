import ArrowCircuit.Proofs.Script.Reads

/-!
# Loops of scripts

A loop of a script is accepted if its head counts a variable up by one to a bound.  The variable is
declared with the mark of mutability split off its name, and a name in the test or the update refers to
it if the two are the same once their marks are split off: the mark of the variable is split off twice.
So a loop whose variable is `mut_mut_i` counts `mut_i`, and refers to it by `i`.

* Every loop of a script that is read counts like this, and its references name the variable itself
  exactly if the variable has no mark left.
* A script that is refused for the shape of a loop head has a loop whose head is refused.
* A head that spells one name throughout is refused exactly if the name has two marks.
-/

namespace ArrowCircuit

mutual

/-- The loops of a statement, an outer one before those in its body: the variable, and whether the bound
is included. -/
def Statement.loops : Statement → List (String × Bool)
  | .assert .. | .declare .. | .assign .. | .foreign .. => []
  | .branch _ consequent none => Statement.loopsOf consequent
  | .branch _ consequent (some alternate) =>
    Statement.loopsOf consequent ++ Statement.loopsOf alternate
  | .loop counter _ _ inclusive body => (counter, inclusive) :: Statement.loopsOf body

/-- The loops of a list of statements. -/
def Statement.loopsOf : List Statement → List (String × Bool)
  | [] => []
  | statement :: rest => statement.loops ++ Statement.loopsOf rest

end

theorem Statement.loopsOf_singleton (statement : Statement) :
    Statement.loopsOf [statement] = statement.loops := by
  rw [Statement.loopsOf, Statement.loopsOf, List.append_nil]

theorem Statement.loopsOf_append (statements rest : List Statement) :
    Statement.loopsOf (statements ++ rest) =
      Statement.loopsOf statements ++ Statement.loopsOf rest := by
  induction statements with
  | nil => rfl
  | cons statement statements ih =>
      rw [List.cons_append, Statement.loopsOf, Statement.loopsOf, ih, List.append_assoc]

namespace Script

/-! ## Loops of the text -/

mutual

/-- The loops of a statement, an outer one before those in its body. -/
def Stmt.loops : Stmt → List LoopSpelling
  | .declaration .. | .expression .. | .result .. => []
  | .branch _ _ consequent none => consequent.loops
  | .branch _ _ consequent (some alternate) => consequent.loops ++ alternate.loops
  | .loop line init test update body => ⟨line, init, test, update⟩ :: body.loops
  | .whileLoop _ _ body => body.loops
  | .block _ statements => Stmt.loopsAll statements

/-- The loops of a list of statements. -/
def Stmt.loopsAll : List Stmt → List LoopSpelling
  | [] => []
  | stmt :: rest => stmt.loops ++ Stmt.loopsAll rest

end

/-- The loops of the body of a script. -/
def Body.loops : Body → List LoopSpelling
  | .block stmts => Stmt.loopsAll stmts
  | .expression _ => []

namespace LoopSpelling

/-- One name stands in all three parts of the head. -/
inductive SpelledWith (name : String) : LoopSpelling → Prop
  | intro {line initLine testLine opLine leftLine stepLine targetLine : Nat} {first last : Term}
      {inclusive : Bool} :
      SpelledWith name ⟨line, .declaration ⟨initLine, .name name, some first⟩,
        some ⟨testLine, .binary opLine (if inclusive then .le else .lt) (.ident leftLine name) last⟩,
        some (.step stepLine .up (.ident targetLine name))⟩

variable {loop : LoopSpelling} {name spelled : String} {head : LoopHead}

theorem Counts.exists_test (h : loop.Counts name head) :
    ∃ testLine opLine op left, left.RefersTo name ∧
      loop.test = some ⟨testLine, .binary opLine op left head.last⟩ := by
  obtain ⟨hleft, -⟩ := h
  exact ⟨_, _, _, _, hleft, rfl⟩

/-- A loop refers to its variable by one name. -/
theorem Counts.unique {other : String} (h : loop.Counts name head) (h' : loop.Counts other head) :
    name = other := by
  obtain ⟨_, _, _, left, hleft, htest⟩ := h.exists_test
  obtain ⟨_, _, _, left', hleft', htest'⟩ := h'.exists_test
  cases htest.symm.trans htest'
  exact hleft.unique hleft'

/-- The references name the variable itself exactly if it has no mark left. -/
theorem Counts.counts_counter_iff (h : loop.Counts (stripMut head.counter).1 head) :
    loop.Counts head.counter head ↔ (stripMut head.counter).2 = false := by
  rw [← stripMut_eq_self_iff]
  exact ⟨h.unique, fun heq => by rwa [heq] at h⟩

/-- **One name throughout.** The head is accepted exactly if the name has at most one mark; a second one
is split off where the name refers to the variable. -/
theorem SpelledWith.head_cases (h : loop.SpelledWith spelled) :
    if (stripMut (stripMut spelled).1).2 then ∃ line, loop.head = .error (.rejected line .loopVariable)
    else ∃ head, loop.head = .ok head ∧ head.counter = (stripMut spelled).1 := by
  obtain @⟨line, initLine, testLine, opLine, leftLine, stepLine, targetLine, first, last, inclusive⟩ := h
  split
  · rename_i hmarked
    -- the variable loses its second mark in the comparison, the name in the test only its first
    have hvariable : (Term.ident leftLine spelled).isVariable (stripMut spelled).1 = false := by
      rw [Term.isVariable, beq_eq_false_iff_ne]
      intro heq
      rw [stripMut_eq_self_iff.mp heq.symm] at hmarked
      cases hmarked
    refine ⟨testLine, ?_⟩
    cases inclusive <;>
      simp [LoopSpelling.head, loopHead, Declarator.split, bind, Except.bind, loopTest, hvariable, refuse]
  · rename_i hmarked
    -- without a second mark there is nothing more to split off
    have hself : (stripMut (stripMut spelled).1).1 = (stripMut spelled).1 :=
      stripMut_eq_self_iff.mpr (Bool.eq_false_iff.mpr hmarked)
    refine ⟨⟨(stripMut spelled).1, first, last, inclusive⟩, head_eq_ok_iff.mpr ?_, rfl⟩
    exact .intro ⟨leftLine, spelled, rfl, hself.symm⟩ (.step ⟨targetLine, spelled, rfl, hself.symm⟩)

end LoopSpelling

/-! ## Accepted loops -/

/-- A loop of a script and the loop of the circuit that it becomes. -/
def LoopSpelling.Gives (loop : LoopSpelling) (counted : String × Bool) : Prop :=
  ∃ head, loop.head = .ok head ∧ counted = (head.counter, head.inclusive)

theorem yields_expressionStatement_loops (scopes : Scopes) (line : Nat) (term : Term) :
    Yields (fun statement => statement.loops = []) (expressionStatement scopes line term) := by
  unfold expressionStatement
  split
  · refine .bind_any fun es => ?_
    unfold assertion
    split
    · exact .ok rfl
    · exact .ok rfl
    · exact .error _
    · exact .error _
  · refine .bind_any fun named => .bind_any fun e => ?_
    split
    · exact .ok rfl
    · exact .ok rfl
  · exact .bind_any fun named => .ok rfl
  · exact .error _

theorem yields_bindDeclaration_loops (scopes : Scopes) (line : Nat) (declarators : List Declarator) :
    Yields (fun bound => bound.1.loops = []) (bindDeclaration scopes line declarators) := by
  unfold bindDeclaration
  split
  · refine .bind_any fun parts => ?_
    obtain ⟨name, isMutable, initial⟩ := parts
    cases initial with
    | none => exact .error _
    | some term => exact .bind_any fun e => .bind_any fun scopes' => .ok rfl
  · exact .error _

mutual

/-- **Statements.** The loops of a statement become those of its circuit statements, one by one. -/
theorem Stmt.yields_loops :
    ∀ (scopes : Scopes) (isBody : Bool) (stmt : Stmt),
      Yields (fun out => List.Forall₂ LoopSpelling.Gives stmt.loops (Statement.loopsOf out.1))
        (stmt.elaborate scopes isBody)
  | scopes, _, .declaration line declarators => by
      rw [Stmt.elaborate]
      refine (yields_bindDeclaration_loops scopes line declarators).bind fun bound h => .ok ?_
      rw [Statement.loopsOf_singleton, h]
      exact .nil
  | scopes, _, .expression line term => by
      rw [Stmt.elaborate]
      refine (yields_expressionStatement_loops scopes line term).bind fun statement h => .ok ?_
      rw [Statement.loopsOf_singleton, h]
      exact .nil
  | scopes, _, .branch _ condition consequent none => by
      rw [Stmt.elaborate]
      refine .bind_any fun c => ?_
      refine (Stmt.yields_loops _ true consequent).bind fun t ht => .ok ?_
      rw [Statement.loopsOf_singleton]
      exact ht
  | scopes, _, .branch _ condition consequent (some alternate) => by
      rw [Stmt.elaborate]
      refine .bind_any fun c => ?_
      refine (Stmt.yields_loops _ true consequent).bind fun t ht => ?_
      refine (Stmt.yields_loops _ true alternate).bind fun e he => .ok ?_
      rw [Statement.loopsOf_singleton]
      exact List.rel_append ht he
  | scopes, _, .loop line init test update body => by
      have hhead : Yields (fun head => loopHead line init test update = .ok head)
          (loopHead line init test update) := fun _ h => h
      rw [Stmt.elaborate]
      refine hhead.bind fun head h => .bind_any fun first => .bind_any fun inner => .bind_any fun last => ?_
      refine (Stmt.yields_loops _ true body).bind fun out hout => .ok ?_
      rw [Statement.loopsOf_singleton]
      exact .cons ⟨head, h, rfl⟩ hout
  | _, _, .whileLoop .. => by
      rw [Stmt.elaborate]
      exact .error _
  | _, _, .result .. => by
      rw [Stmt.elaborate]
      exact .error _
  | scopes, isBody, .block line statements => by
      rw [Stmt.elaborate]
      split
      · exact Stmt.yields_loopsAll scopes statements
      · exact .error _

theorem Stmt.yields_loopsAll :
    ∀ (scopes : Scopes) (stmts : List Stmt),
      Yields (fun out => List.Forall₂ LoopSpelling.Gives (Stmt.loopsAll stmts) (Statement.loopsOf out.1))
        (Stmt.elaborateAll scopes stmts)
  | scopes, [] => by
      rw [Stmt.elaborateAll]
      exact .ok .nil
  | scopes, stmt :: rest => by
      rw [Stmt.elaborateAll]
      refine (Stmt.yields_loops scopes false stmt).bind fun out h => ?_
      refine (Stmt.yields_loopsAll out.2 rest).bind fun more hmore => .ok ?_
      rw [Statement.loopsOf_append]
      exact List.rel_append h hmore

end

theorem Body.yields_loops (scopes : Scopes) (body : Body) :
    Yields (fun statements => List.Forall₂ LoopSpelling.Gives body.loops (Statement.loopsOf statements))
      (body.elaborate scopes) := by
  cases body with
  | block stmts =>
      rw [Body.elaborate]
      exact (Stmt.yields_loopsAll scopes stmts).bind fun out h => .ok h
  | expression term =>
      rw [Body.elaborate]
      exact .bind_any fun e => .ok .nil

/-! ## Refused heads -/

/-- The rejections for the shape of a loop head. -/
def Rejection.ofLoopHead : Rejection → Bool
  | .loopInit | .loopTest | .loopOperator | .loopVariable | .loopUpdate => true
  | _ => false

/-- The faults for the shape of a loop head. -/
def Error.ofLoopHead : Error → Bool
  | .rejected _ r => r.ofLoopHead
  | _ => false

/-- Whatever fault there is, it is not about the shape of a loop head. -/
abbrev NotOfHead {α : Type} (r : Result α) : Prop := Raises (fun e => e.ofLoopHead = false) r

theorem notOfHead_resolve (scopes : Scopes) (line : Nat) (name : String) :
    NotOfHead (resolve scopes line name) := by
  rw [resolve]
  split
  · exact .ok _
  · exact .error rfl

theorem notOfHead_tokenValue (digits : List Char) : NotOfHead (tokenValue digits) := by
  rw [tokenValue]
  split
  · exact .ok _
  · exact .error rfl

mutual

theorem Term.notOfHead_elaborate (scopes : Scopes) : ∀ term : Term, NotOfHead (term.elaborate scopes)
  | .ident line spelled => by
      rw [Term.elaborate]
      exact (notOfHead_resolve scopes line _).bind fun _ => .ok _
  | .number _ digits => by
      rw [Term.elaborate]
      exact (notOfHead_tokenValue digits).bind fun _ => .ok _
  | .string _ literal => by
      rw [Term.elaborate]
      split
      · exact .ok _
      · exact .error rfl
  | .bool _ b => by
      rw [Term.elaborate]
      exact .ok _
  | .array _ elements => by
      rw [Term.elaborate]
      exact (Term.notOfHead_elaborateAll scopes elements).bind fun _ => .ok _
  | .binary _ op left right => by
      rw [Term.elaborate]
      exact (left.notOfHead_elaborate scopes).bind fun _ =>
        (right.notOfHead_elaborate scopes).bind fun _ => .ok _
  | .unary line .neg operand => by
      rw [Term.elaborate]
      exact (operand.notOfHead_elaborate scopes).bind fun _ => .ok _
  | .unary line .not operand => by
      rw [Term.elaborate]
      exact (operand.notOfHead_elaborate scopes).bind fun _ => .ok _
  | .unary line .pos operand => by
      rw [Term.elaborate]
      exact .error rfl
  | .step .. => by
      rw [Term.elaborate]
      exact .error rfl
  | .assign .. => by
      rw [Term.elaborate]
      exact .error rfl
  | .ternary _ condition consequent alternate => by
      rw [Term.elaborate]
      exact (condition.notOfHead_elaborate scopes).bind fun _ =>
        (consequent.notOfHead_elaborate scopes).bind fun _ =>
          (alternate.notOfHead_elaborate scopes).bind fun _ => .ok _
  | .index _ object position => by
      rw [Term.elaborate]
      exact (object.notOfHead_elaborate scopes).bind fun _ =>
        (position.notOfHead_elaborate scopes).bind fun _ => .ok _
  | .property line object name => by
      rw [Term.elaborate]
      split
      · exact (object.notOfHead_elaborate scopes).bind fun _ => .ok _
      · exact .error rfl
  | .call _ callee arguments => by
      have harguments := Term.notOfHead_elaborateAll scopes arguments
      rw [Term.elaborate.eq_def]
      dsimp only
      split
      · rename_i object name
        exact (object.notOfHead_elaborate scopes).bind fun _ => harguments.bind fun _ => .ok _
      · exact harguments.bind fun _ => .ok _
      · exact (callee.notOfHead_elaborate scopes).bind fun _ => harguments.bind fun _ => .ok _

theorem Term.notOfHead_elaborateAll (scopes : Scopes) :
    ∀ terms : List Term, NotOfHead (Term.elaborateAll scopes terms)
  | [] => by
      rw [Term.elaborateAll]
      exact .ok _
  | term :: rest => by
      rw [Term.elaborateAll]
      exact (term.notOfHead_elaborate scopes).bind fun _ =>
        (Term.notOfHead_elaborateAll scopes rest).bind fun _ => .ok _

end

theorem notOfHead_expressionStatement (scopes : Scopes) (line : Nat) (term : Term) :
    NotOfHead (expressionStatement scopes line term) := by
  have htarget : ∀ line target, NotOfHead (assignTarget scopes line target) := by
    intro line target
    unfold assignTarget
    split
    · refine (notOfHead_resolve scopes _ _).bind fun isMutable => ?_
      cases isMutable with
      | true => exact .ok _
      | false => exact .error rfl
    · exact .error rfl
  unfold expressionStatement
  split
  · refine (Term.notOfHead_elaborateAll scopes _).bind fun es => ?_
    unfold assertion
    split
    · exact .ok _
    · exact .ok _
    · exact .error rfl
    · exact .error rfl
  · rename_i op target value
    refine (htarget _ target).bind fun named => (value.notOfHead_elaborate scopes).bind fun e => ?_
    split
    · exact .ok _
    · exact .ok _
  · exact (htarget _ _).bind fun named => .ok _
  · exact .error rfl

theorem notOfHead_bindName (scopes : Scopes) (line : Nat) (name : String) (isMutable : Bool) :
    NotOfHead (bindName scopes line name isMutable) := by
  rw [bindName]
  split
  · exact .ok _
  · exact .error rfl

theorem notOfHead_bindDeclaration (scopes : Scopes) (line : Nat) (declarators : List Declarator) :
    NotOfHead (bindDeclaration scopes line declarators) := by
  unfold bindDeclaration
  split
  · rename_i d
    have hsplit : NotOfHead d.split := by
      rw [Declarator.split]
      split
      · exact .ok _
      · exact .error rfl
    refine hsplit.bind fun parts => ?_
    obtain ⟨name, isMutable, initial⟩ := parts
    cases initial with
    | none => exact .error rfl
    | some term =>
        exact (term.notOfHead_elaborate scopes).bind fun e =>
          (notOfHead_bindName scopes line name isMutable).bind fun scopes' => .ok _
  · exact .error rfl

/-- A fault for the shape of a loop head is that of the head of one of these loops. -/
def Blames (loops : List LoopSpelling) (e : Error) : Prop :=
  e.ofLoopHead = true → ∃ loop ∈ loops, loop.head = .error e

theorem Blames.mono {loops loops' : List LoopSpelling} (hsub : loops ⊆ loops') (e : Error)
    (h : Blames loops e) : Blames loops' e := by
  intro he
  obtain ⟨loop, hloop, hhead⟩ := h he
  exact ⟨loop, hsub hloop, hhead⟩

theorem NotOfHead.raises {α : Type} {r : Result α} (h : NotOfHead r) (loops : List LoopSpelling) :
    Raises (Blames loops) r :=
  h.mono fun e hno he => absurd he (by rw [hno]; exact Bool.false_ne_true)

mutual

/-- **Statements.** A statement that is refused for the shape of a loop head has a loop whose head is
refused. -/
theorem Stmt.raises_blames :
    ∀ (scopes : Scopes) (isBody : Bool) (stmt : Stmt),
      Raises (Blames stmt.loops) (stmt.elaborate scopes isBody)
  | scopes, _, .declaration line declarators => by
      rw [Stmt.elaborate]
      exact ((notOfHead_bindDeclaration scopes line declarators).raises _).bind fun bound => .ok _
  | scopes, _, .expression line term => by
      rw [Stmt.elaborate]
      exact ((notOfHead_expressionStatement scopes line term).raises _).bind fun statement => .ok _
  | scopes, _, .branch _ condition consequent none => by
      rw [Stmt.elaborate]
      refine ((condition.notOfHead_elaborate scopes).raises _).bind fun c => ?_
      exact (Stmt.raises_blames _ true consequent).bind fun t => .ok _
  | scopes, _, .branch _ condition consequent (some alternate) => by
      have hconsequent := List.subset_append_left consequent.loops alternate.loops
      have halternate := List.subset_append_right consequent.loops alternate.loops
      rw [Stmt.elaborate]
      refine ((condition.notOfHead_elaborate scopes).raises _).bind fun c => ?_
      refine ((Stmt.raises_blames _ true consequent).mono (Blames.mono hconsequent)).bind fun t => ?_
      exact ((Stmt.raises_blames _ true alternate).mono (Blames.mono halternate)).bind fun e => .ok _
  | scopes, _, .loop line init test update body => by
      have hhead : Raises (Blames (Stmt.loop line init test update body).loops)
          (loopHead line init test update) := fun e he _ =>
        ⟨⟨line, init, test, update⟩, List.mem_cons_self, he⟩
      have hbody : body.loops ⊆ (Stmt.loop line init test update body).loops :=
        List.subset_cons_self _ _
      rw [Stmt.elaborate]
      -- behind the head only the two bounds, the name and the body can be at fault
      refine hhead.bind fun head => ?_
      refine ((head.first.notOfHead_elaborate scopes).raises _).bind fun first => ?_
      refine ((notOfHead_bindName _ line head.counter false).raises _).bind fun inner => ?_
      refine ((head.last.notOfHead_elaborate inner).raises _).bind fun last => ?_
      exact ((Stmt.raises_blames _ true body).mono (Blames.mono hbody)).bind fun out => .ok _
  | _, _, .whileLoop .. => by
      rw [Stmt.elaborate]
      exact .error fun h => absurd h Bool.false_ne_true
  | _, _, .result .. => by
      rw [Stmt.elaborate]
      exact .error fun h => absurd h Bool.false_ne_true
  | scopes, isBody, .block line statements => by
      rw [Stmt.elaborate]
      split
      · exact Stmt.raises_blamesAll scopes statements
      · exact .error fun h => absurd h Bool.false_ne_true

theorem Stmt.raises_blamesAll :
    ∀ (scopes : Scopes) (stmts : List Stmt),
      Raises (Blames (Stmt.loopsAll stmts)) (Stmt.elaborateAll scopes stmts)
  | scopes, [] => by
      rw [Stmt.elaborateAll]
      exact .ok _
  | scopes, stmt :: rest => by
      have hfirst := List.subset_append_left stmt.loops (Stmt.loopsAll rest)
      have hrest := List.subset_append_right stmt.loops (Stmt.loopsAll rest)
      rw [Stmt.elaborateAll]
      refine ((Stmt.raises_blames scopes false stmt).mono (Blames.mono hfirst)).bind fun out => ?_
      exact ((Stmt.raises_blamesAll out.2 rest).mono (Blames.mono hrest)).bind fun more => .ok _

end

theorem Body.raises_blames (scopes : Scopes) (body : Body) :
    Raises (Blames body.loops) (body.elaborate scopes) := by
  cases body with
  | block stmts =>
      rw [Body.elaborate]
      exact (Stmt.raises_blamesAll scopes stmts).bind fun out => .ok _
  | expression term =>
      rw [Body.elaborate]
      exact ((term.notOfHead_elaborate scopes).raises _).bind fun e => .ok _

theorem notOfHead_patternParams (seen : List String) (index : Nat) (names : List (Nat × String)) :
    NotOfHead (patternParams seen index names) := by
  induction names generalizing seen index with
  | nil => exact .ok _
  | cons entry rest ih =>
      rw [patternParams]
      split
      · exact .error rfl
      · exact (ih _ _).bind fun _ => .ok _

theorem notOfHead_groupParams (label : String) (seen : List String) (parameter : Parameter) :
    NotOfHead (groupParams label seen parameter) := by
  cases parameter with
  | pattern line names => exact notOfHead_patternParams seen 0 names
  | plain line name => exact .error rfl

theorem Parameters.notOfHead_elaborate (parameters : Parameters) : NotOfHead parameters.elaborate := by
  unfold Parameters.elaborate
  split
  · exact .error rfl
  · exact (notOfHead_groupParams _ _ _).bind fun _ => (notOfHead_groupParams _ _ _).bind fun _ => .ok _
  · exact .error rfl

/-! ## Scripts -/

theorem forall₂_gives_of_parse {text : String} {c : Circuit} (h : Circuit.parse text = .ok c) :
    ∃ d, Definition.parse text.toList = .ok d ∧
      List.Forall₂ LoopSpelling.Gives d.body.loops (Statement.loopsOf c.statements) := by
  rw [Circuit.parse] at h
  split at h
  · cases h
  · rename_i d hd
    obtain ⟨params, -, h⟩ := bind_eq_ok h
    obtain ⟨statements, hstatements, h⟩ := bind_eq_ok h
    cases h
    exact ⟨d, hd, d.body.yields_loops _ statements hstatements⟩

theorem exists_head_of_parse_error {text : String} {e : Error} (h : Circuit.parse text = .error e)
    (he : e.ofLoopHead = true) :
    ∃ d, Definition.parse text.toList = .ok d ∧ ∃ loop ∈ d.body.loops, loop.head = .error e := by
  rw [Circuit.parse] at h
  split at h
  · cases h
    cases he
  · rename_i d hd
    have hraises : Raises (Blames d.body.loops) d.elaborate := by
      rw [Definition.elaborate]
      refine (d.parameters.notOfHead_elaborate.raises _).bind fun params => ?_
      exact (d.body.raises_blames _).bind fun statements => .ok _
    exact ⟨d, hd, hraises e h he⟩

/-- **Loops.** The loops of a script that is read become the loops of the circuit, one by one.  Each
declares its variable, compares it with `<` or `<=` and adds one to it.  The names that refer to the
variable are spelled, apart from their mark, like the variable without a second mark: like the variable
itself exactly if it has none.

A script that is refused for the shape of a loop head has a loop whose head is refused with this fault.
A head with one name throughout is not, unless the name has two marks, and then it is. -/
theorem counted_loops_of_parse (text : String) :
    (∀ c, Circuit.parse text = .ok c → ∃ d, Definition.parse text.toList = .ok d ∧
      List.Forall₂ (fun loop counted => ∃ first last,
          loop.Counts (stripMut counted.1).1 ⟨counted.1, first, last, counted.2⟩ ∧
          (loop.Counts counted.1 ⟨counted.1, first, last, counted.2⟩ ↔ (stripMut counted.1).2 = false))
        d.body.loops (Statement.loopsOf c.statements)) ∧
    (∀ e, Circuit.parse text = .error e → e.ofLoopHead = true →
      ∃ d, Definition.parse text.toList = .ok d ∧ ∃ loop ∈ d.body.loops, loop.head = .error e) ∧
    ∀ loop spelled, LoopSpelling.SpelledWith spelled loop →
      if (stripMut (stripMut spelled).1).2 then
        ∃ line, loop.head = .error (.rejected line .loopVariable)
      else ∃ head, loop.head = .ok head ∧ head.counter = (stripMut spelled).1 := by
  refine ⟨fun c h => ?_, fun e h he => exists_head_of_parse_error h he, fun _ _ h => h.head_cases⟩
  obtain ⟨d, hd, hgives⟩ := forall₂_gives_of_parse h
  refine ⟨d, hd, hgives.imp fun loop counted hloop => ?_⟩
  obtain ⟨head, hhead, rfl⟩ := hloop
  have hcounts := LoopSpelling.head_eq_ok_iff.mp hhead
  exact ⟨head.first, head.last, hcounts, hcounts.counts_counter_iff⟩

/-- A loop whose variable has two marks, and is referred to without any. -/
def twiceMarkedScript : String :=
  "([n], [a]) => { for (let mut_mut_i = 0; i < n; i++) { assert(a == n); } }"

/-- What the grammar makes of `twiceMarkedScript`. -/
def twiceMarkedDefinition : Definition where
  parameters := .listed 1 [.pattern 1 [(1, "n")], .pattern 1 [(1, "a")]]
  body := .block [.loop 1 (.declaration ⟨1, .name "mut_mut_i", some (.number 1 ['0'])⟩)
    (some ⟨1, .binary 1 .lt (.ident 1 "i") (.ident 1 "n")⟩) (some (.step 1 .up (.ident 1 "i")))
    (.block 1 [.expression 1 (.call 1 (.ident 1 "assert")
      [.binary 1 .eq (.ident 1 "a") (.ident 1 "n")])])]

/-- The circuit of `twiceMarkedScript`. -/
def twiceMarkedCircuit : Circuit where
  publicParams := [⟨"n", 0⟩]
  privateParams := [⟨"a", 0⟩]
  statements := [.loop "mut_i" (.literal (.int 0)) (.identifier "n") false
    [.assert (.binary .eq (.identifier "a") (.identifier "n")) none]]

/-- The script is read, although the names in its test and its update are not that of its variable. -/
theorem counted_loops_of_parse_twice_marked :
    Circuit.parse twiceMarkedScript = .ok twiceMarkedCircuit ∧
      Statement.loopsOf twiceMarkedCircuit.statements = [("mut_i", false)] ∧
      ∃ loop first last, twiceMarkedDefinition.body.loops = [loop] ∧
        loop.Counts "i" ⟨"mut_i", first, last, false⟩ ∧
        ¬ loop.Counts "mut_i" ⟨"mut_i", first, last, false⟩ := by
  have hdefinition : Definition.parse twiceMarkedScript.toList = .ok twiceMarkedDefinition := by cbv
  have hparse : Circuit.parse twiceMarkedScript = .ok twiceMarkedCircuit := by
    rw [Circuit.parse, hdefinition]
    rfl
  have hloops : Statement.loopsOf twiceMarkedCircuit.statements = [("mut_i", false)] := rfl
  obtain ⟨hread, -⟩ := counted_loops_of_parse twiceMarkedScript
  obtain ⟨d, hd, hforall⟩ := hread twiceMarkedCircuit hparse
  cases hdefinition.symm.trans hd
  rw [hloops] at hforall
  obtain ⟨loop, rest, ⟨first, last, hcounts, hiff⟩, hrest, heq⟩ := List.forall₂_cons_right_iff.mp hforall
  cases List.forall₂_nil_right_iff.mp hrest
  exact ⟨hparse, hloops, loop, first, last, heq, hcounts, fun h => absurd (hiff.mp h) (by decide)⟩

end Script

end ArrowCircuit
