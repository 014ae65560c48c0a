import ArrowCircuit.Proofs.Script.Expressions
import ArrowCircuit.Proofs.Script.Scoping
import ArrowCircuit.Proofs.Witness.Layout

/-!
# What the variables of a script denote

A variable is read where its name stands in an expression.  Elaboration keeps the order of the reads
and splits the mark of mutability off each (`Stmt.yields_reads`), while a parameter keeps the name that
it is spelled with.  So a read that is spelled like a parameter denotes that parameter exactly if the
spelling has no mark.  With a mark it denotes what the rest of the name denotes, which is another
parameter wherever it is no local variable.
-/

namespace ArrowCircuit

mutual

/-- The variables that an expression reads, in the order in which they stand in it.  The name of a
function is no variable. -/
def Expr.reads : Expr → List String
  | .identifier name => [name]
  | .literal _ | .foreign _ => []
  | .binary _ left right | .otherBinary _ left right => left.reads ++ right.reads
  | .unary _ operand | .otherUnary _ operand => operand.reads
  | .index object position => object.reads ++ position.reads
  | .call (.identifier _) none arguments => Expr.readsAll arguments
  | .call callee _ arguments => callee.reads ++ Expr.readsAll arguments
  | .array elements => Expr.readsAll elements
  | .conditional condition consequent alternate =>
    condition.reads ++ consequent.reads ++ alternate.reads

/-- The variables that a list of expressions reads. -/
def Expr.readsAll : List Expr → List String
  | [] => []
  | e :: rest => e.reads ++ Expr.readsAll rest

end

theorem Expr.reads_call_of_ne {callee : Expr} {method : Option String} {arguments : List Expr}
    (h : ∀ name, callee = .identifier name → method ≠ none) :
    (Expr.call callee method arguments).reads = callee.reads ++ Expr.readsAll arguments := by
  rw [Expr.reads]
  intro name hname hnone
  exact h name hname hnone

/-- The variables that statements read. -/
def Statement.readsOf (statements : List Statement) : List String :=
  (Statement.exprsOf statements).flatMap Expr.reads

/-- The variables that a circuit reads. -/
def Circuit.reads (c : Circuit) : List String := Statement.readsOf c.statements

namespace Script

open Lowering

mutual

/-- The spellings of the variables that a term reads, in the order of the text.  A plain assignment
does not read its target. -/
def Term.reads : Term → List String
  | .ident _ spelled => [spelled]
  | .number .. | .string .. | .bool .. => []
  | .array _ elements => Term.readsAll elements
  | .binary _ _ left right => left.reads ++ right.reads
  | .unary _ _ operand => operand.reads
  | .step _ _ target => target.reads
  | .assign _ .plain _ value => value.reads
  | .assign _ _ target value => target.reads ++ value.reads
  | .ternary _ condition consequent alternate =>
    condition.reads ++ consequent.reads ++ alternate.reads
  | .index _ object position => object.reads ++ position.reads
  | .property _ object _ => object.reads
  | .call _ (.ident ..) arguments => Term.readsAll arguments
  | .call _ callee arguments => callee.reads ++ Term.readsAll arguments

/-- The spellings of the variables that a list of terms reads. -/
def Term.readsAll : List Term → List String
  | [] => []
  | term :: rest => term.reads ++ Term.readsAll rest

end

/-- A place at which a variable is read: how it is spelled there, and the names of the local variables
that are visible there, without their marks. -/
structure Read where
  spelled : String
  locals : List String
  deriving DecidableEq, Repr

/-- The places at which a term reads a variable, where these local variables are visible. -/
def Term.readsAt (locals : List String) (term : Term) : List Read :=
  term.reads.map fun spelled => ⟨spelled, locals⟩

/-- The local variables that a declarator adds. -/
def Declarator.locals (d : Declarator) : List String :=
  match d.binder with
  | .name spelled => [(stripMut spelled).1]
  | .pattern => []

/-- The places at which the initial value of a declarator reads a variable. -/
def Declarator.readsAt (locals : List String) (d : Declarator) : List Read :=
  d.initial.elim [] (Term.readsAt locals)

/-- The local variables that a statement adds for what follows it in its block. -/
def Stmt.locals : Stmt → List String
  | .declaration _ declarators => declarators.flatMap Declarator.locals
  | _ => []

mutual

/-- The places at which a statement reads a variable.  Of the head of a loop these are in the first and
the last value of the loop variable; the loop variable is visible to the second of them and to the
body.  Other heads, and statements that are no part of circuits, are not looked into. -/
def Stmt.reads (locals : List String) : Stmt → List Read
  | .declaration _ declarators => declarators.flatMap (Declarator.readsAt locals)
  | .expression _ term => term.readsAt locals
  | .branch _ condition consequent none => condition.readsAt locals ++ consequent.reads locals
  | .branch _ condition consequent (some alternate) =>
    condition.readsAt locals ++ (consequent.reads locals ++ alternate.reads locals)
  | .loop _ (.declaration d) (some ⟨_, .binary _ _ _ last⟩) _ body =>
    d.readsAt locals ++
      (last.readsAt (d.locals ++ locals) ++ body.reads (d.locals ++ locals))
  | .block _ statements => Stmt.readsAll locals statements
  | .loop .. | .whileLoop .. | .result .. => []

/-- The places at which a block reads a variable, declarations being visible to what follows them. -/
def Stmt.readsAll (locals : List String) : List Stmt → List Read
  | [] => []
  | stmt :: rest => stmt.reads locals ++ Stmt.readsAll (stmt.locals ++ locals) rest

end

/-- The places at which a body reads a variable. -/
def Body.reads : Body → List Read
  | .block statements => Stmt.readsAll [] statements
  | .expression term => term.readsAt []

/-! ## Expressions -/

/-- A spelling and the name that it stands for, which is visible. -/
def Names (scopes : Scopes) (spelled name : String) : Prop :=
  name = (stripMut spelled).1 ∧ (scopes.lookup? name).isSome

theorem yields_resolve_names (scopes : Scopes) (line : Nat) (spelled : String) :
    Yields (fun _ => Names scopes spelled (stripMut spelled).1)
      (resolve scopes line (stripMut spelled).1) := by
  intro isMutable h
  have hlookup := yields_resolve scopes line _ isMutable h
  refine ⟨rfl, ?_⟩
  rw [Scopes.scope] at hlookup
  rw [hlookup, Option.isSome_some]

theorem reads_negate (e : Expr) : (negate e).reads = e.reads := by
  unfold negate
  split
  · rfl
  · rw [Expr.reads]

theorem negate_ne_identifier (e : Expr) (name : String) : negate e ≠ .identifier name := by
  unfold negate
  split <;> exact Expr.noConfusion

/-- Only an identifier is elaborated to one. -/
theorem Term.yields_ne_identifier (scopes : Scopes) {term : Term}
    (h : ∀ line spelled, term ≠ .ident line spelled) :
    Yields (fun e => ∀ name, e ≠ .identifier name) (term.elaborate scopes) := by
  cases term with
  | ident line spelled => exact absurd rfl (h line spelled)
  | number line digits =>
      rw [Term.elaborate]
      exact .bind_any fun z => .ok fun name => Expr.noConfusion
  | string line literal =>
      rw [Term.elaborate]
      split
      · exact .ok fun name => Expr.noConfusion
      · exact .error _
  | bool line b =>
      rw [Term.elaborate]
      exact .ok fun name => Expr.noConfusion
  | array line elements =>
      rw [Term.elaborate]
      exact .bind_any fun es => .ok fun name => Expr.noConfusion
  | binary line op left right =>
      rw [Term.elaborate]
      exact .bind_any fun l => .bind_any fun r => .ok fun name => Expr.noConfusion
  | unary line op operand =>
      cases op with
      | neg =>
          rw [Term.elaborate]
          exact .bind_any fun e => .ok (negate_ne_identifier e)
      | not =>
          rw [Term.elaborate]
          exact .bind_any fun e => .ok fun name => Expr.noConfusion
      | pos =>
          rw [Term.elaborate]
          exact .error _
  | step line direction target =>
      rw [Term.elaborate]
      exact .error _
  | assign line op target value =>
      rw [Term.elaborate]
      exact .error _
  | ternary line condition consequent alternate =>
      rw [Term.elaborate]
      exact .bind_any fun c => .bind_any fun t => .bind_any fun e =>
        .ok fun name => Expr.noConfusion
  | index line object position =>
      rw [Term.elaborate]
      exact .bind_any fun o => .bind_any fun p => .ok fun name => Expr.noConfusion
  | property line object name =>
      rw [Term.elaborate]
      split
      · exact .bind_any fun o => .ok fun name => Expr.noConfusion
      · exact .error _
  | call line callee arguments =>
      rw [Term.elaborate.eq_def]
      dsimp only
      split
      · exact .bind_any fun o => .bind_any fun es => .ok fun name => Expr.noConfusion
      · exact .bind_any fun es => .ok fun name => Expr.noConfusion
      · exact .bind_any fun e => .bind_any fun es => .ok fun name => Expr.noConfusion

mutual

/-- **Expressions.** The reads of a term are those of its expression, one by one. -/
theorem Term.yields_reads (scopes : Scopes) :
    ∀ term : Term,
      Yields (fun e => List.Forall₂ (Names scopes) term.reads e.reads) (term.elaborate scopes)
  | .ident line spelled => by
      rw [Term.elaborate]
      refine (yields_resolve_names scopes line spelled).bind fun _ h => .ok ?_
      rw [Term.reads, Expr.reads]
      exact .cons h .nil
  | .number _ digits => by
      rw [Term.elaborate]
      exact .bind_any fun z => .ok .nil
  | .string _ literal => by
      rw [Term.elaborate]
      split
      · exact .ok .nil
      · exact .error _
  | .bool _ b => by
      rw [Term.elaborate]
      exact .ok .nil
  | .array _ elements => by
      rw [Term.elaborate]
      exact (Term.yields_readsAll scopes elements).bind fun es hes => .ok hes
  | .binary _ op left right => by
      rw [Term.elaborate]
      refine (left.yields_reads scopes).bind fun l hl => ?_
      exact (right.yields_reads scopes).bind fun r hr => .ok (List.rel_append hl hr)
  | .unary line .neg operand => by
      rw [Term.elaborate]
      refine (operand.yields_reads scopes).bind fun e he => .ok ?_
      rwa [Term.reads, reads_negate]
  | .unary line .not operand => by
      rw [Term.elaborate]
      exact (operand.yields_reads scopes).bind fun e he => .ok he
  | .unary line .pos operand => by
      rw [Term.elaborate]
      exact .error _
  | .step .. => by
      rw [Term.elaborate]
      exact .error _
  | .assign .. => by
      rw [Term.elaborate]
      exact .error _
  | .ternary _ condition consequent alternate => by
      rw [Term.elaborate]
      refine (condition.yields_reads scopes).bind fun c hc => ?_
      refine (consequent.yields_reads scopes).bind fun t ht => ?_
      refine (alternate.yields_reads scopes).bind fun e he => ?_
      exact .ok (List.rel_append (List.rel_append hc ht) he)
  | .index _ object position => by
      rw [Term.elaborate]
      refine (object.yields_reads scopes).bind fun o ho => ?_
      exact (position.yields_reads scopes).bind fun p hp => .ok (List.rel_append ho hp)
  | .property line object name => by
      rw [Term.elaborate]
      split
      · refine (object.yields_reads scopes).bind fun o ho => .ok ?_
        rw [Expr.reads_call_of_ne fun _ _ => Option.some_ne_none _, Expr.readsAll, List.append_nil]
        exact ho
      · exact .error _
  | .call _ callee arguments => by
      have harguments := Term.yields_readsAll scopes arguments
      rw [Term.elaborate.eq_def]
      dsimp only
      split
      · rename_i object name
        -- a method: the object is read first
        refine (object.yields_reads scopes).bind fun o ho => ?_
        refine harguments.bind fun es hes => .ok ?_
        rw [Expr.reads_call_of_ne fun _ _ => Option.some_ne_none _]
        exact List.rel_append ho hes
      · -- the name of a function is not read
        exact harguments.bind fun es hes => .ok hes
      · rename_i hident
        have hcallee : Yields (fun e => List.Forall₂ (Names scopes) callee.reads e.reads ∧
            ∀ name, e ≠ .identifier name) (callee.elaborate scopes) := fun e h =>
          ⟨callee.yields_reads scopes e h, Term.yields_ne_identifier scopes hident e h⟩
        refine hcallee.bind fun e he => harguments.bind fun es hes => .ok ?_
        rw [Expr.reads_call_of_ne fun name hname => absurd hname (he.2 name), Term.reads]
        · exact List.rel_append he.1 hes
        · exact hident

theorem Term.yields_readsAll (scopes : Scopes) :
    ∀ terms : List Term, Yields (fun es => List.Forall₂ (Names scopes) (Term.readsAll terms)
      (Expr.readsAll es)) (Term.elaborateAll scopes terms)
  | [] => by
      rw [Term.elaborateAll]
      exact .ok .nil
  | term :: rest => by
      rw [Term.elaborateAll]
      refine (term.yields_reads scopes).bind fun e he => ?_
      exact (Term.yields_readsAll scopes rest).bind fun es hes => .ok (List.rel_append he hes)

end

/-! ## Statements -/

theorem readsOf_singleton (statement : Statement) :
    Statement.readsOf [statement] = statement.exprs.flatMap Expr.reads := by
  rw [Statement.readsOf, Statement.exprsOf_singleton]

theorem readsOf_append (statements rest : List Statement) :
    Statement.readsOf (statements ++ rest) =
      Statement.readsOf statements ++ Statement.readsOf rest := by
  rw [Statement.readsOf, Statement.exprsOf_append, List.flatMap_append]
  rfl

theorem Scopes.lookup?_declare? {scopes scopes' : Scopes} {name other : String} {isMutable : Bool}
    (h : scopes.declare? name isMutable = some scopes') (hne : other ≠ name) :
    scopes'.lookup? other = scopes.lookup? other := by
  have hcons : ∀ block : Block,
      List.lookup other ((name, isMutable) :: block) = List.lookup other block := by
    intro block
    rw [List.lookup_cons, beq_eq_false_iff_ne.mpr hne]
  unfold Scopes.declare? at h
  split at h
  · cases h
    rw [Scopes.lookup?.eq_def]
    dsimp only
    rw [hcons]
    rfl
  · split at h
    · cases h
    · cases h
      rw [Scopes.lookup?, Scopes.lookup?, hcons]

/-- What a read denotes: its spelling without the mark, as a local variable or a parameter. -/
def Read.Denotes (params : List String) (read : Read) (name : String) : Prop :=
  name = (stripMut read.spelled).1 ∧ (name ∈ read.locals ∨ name ∈ params)

/-- The visible names are those of local variables and of parameters. -/
def Visible (params locals : List String) (scopes : Scopes) : Prop :=
  ∀ name, (scopes.lookup? name).isSome → name ∈ locals ∨ name ∈ params

section

variable {params locals : List String} {scopes : Scopes}

theorem Visible.open (h : Visible params locals scopes) : Visible params locals ([] :: scopes) := h

/-- A name that is declared is a local variable from there on. -/
theorem Visible.yields_bindName (h : Visible params locals scopes) (line : Nat) (name : String)
    (isMutable : Bool) :
    Yields (Visible params (name :: locals)) (bindName scopes line name isMutable) := by
  intro scopes' hbind other hother
  by_cases hname : other = name
  · exact .inl (hname ▸ List.mem_cons_self)
  · rw [bindName] at hbind
    split at hbind
    · rename_i hdeclare
      cases hbind
      rw [Scopes.lookup?_declare? hdeclare hname] at hother
      exact (h other hother).imp_left (List.mem_cons_of_mem name)
    · cases hbind

theorem Visible.denotes (h : Visible params locals scopes) {spelled name : String}
    (hnames : Names scopes spelled name) : Read.Denotes params ⟨spelled, locals⟩ name :=
  ⟨hnames.1, h name hnames.2⟩

theorem Visible.forall₂_readsAt (h : Visible params locals scopes) {term : Term} {e : Expr}
    (he : List.Forall₂ (Names scopes) term.reads e.reads) :
    List.Forall₂ (Read.Denotes params) (term.readsAt locals) e.reads :=
  List.forall₂_map_left_iff.mpr (he.imp fun _ _ => h.denotes)

/-- An expression that stands in a statement. -/
theorem Visible.yields_readsAt (h : Visible params locals scopes) (term : Term) :
    Yields (fun e => List.Forall₂ (Read.Denotes params) (term.readsAt locals) e.reads)
      (term.elaborate scopes) :=
  fun e he => h.forall₂_readsAt (term.yields_reads scopes e he)

theorem yields_assertion_reads (line : Nat) (es : List Expr) :
    Yields (fun statement => statement.exprs.flatMap Expr.reads = Expr.readsAll es)
      (assertion line es) := by
  unfold assertion
  split
  · exact .ok (by simp only [Statement.exprs, Expr.readsAll, List.flatMap_cons, List.flatMap_nil])
  · exact .ok (by simp only [Statement.exprs, Expr.readsAll, Expr.reads, List.flatMap_cons,
      List.flatMap_nil, List.append_nil])
  · exact .error _
  · exact .error _

/-- The target of an assignment is spelled with or without its mark. -/
theorem yields_assignTarget_reads (scopes : Scopes) (line : Nat) (target : Term) :
    Yields (fun named => List.Forall₂ (Names scopes) target.reads [named.1])
      (assignTarget scopes line target) := by
  unfold assignTarget
  split
  · refine (yields_resolve_names scopes _ _).bind fun isMutable h => ?_
    cases isMutable with
    | true => exact .ok (.cons h .nil)
    | false => exact .error _
  · exact .error _

theorem yields_expressionStatement_reads (h : Visible params locals scopes) (line : Nat)
    (term : Term) :
    Yields (fun statement => List.Forall₂ (Read.Denotes params) (term.readsAt locals)
      (Statement.readsOf [statement])) (expressionStatement scopes line term) := by
  unfold expressionStatement
  split
  · rename_i arguments
    refine (Term.yields_readsAll scopes arguments).bind fun es hes => ?_
    intro statement hstatement
    rw [readsOf_singleton, yields_assertion_reads _ _ statement hstatement]
    exact List.forall₂_map_left_iff.mpr (hes.imp fun _ _ => h.denotes)
  · rename_i op target value
    refine (yields_assignTarget_reads scopes _ target).bind fun named hnamed => ?_
    refine (value.yields_reads scopes).bind fun e he => ?_
    -- a plain assignment does not read its target, the others read it first
    cases op with
    | plain =>
        refine .ok ?_
        rw [readsOf_singleton, Statement.exprs, List.flatMap_singleton]
        exact h.forall₂_readsAt he
    | add | sub | mul =>
        refine .ok ?_
        rw [readsOf_singleton, Statement.exprs, List.flatMap_singleton, Expr.reads, Expr.reads]
        exact List.forall₂_map_left_iff.mpr ((List.rel_append hnamed he).imp fun _ _ => h.denotes)
  · rename_i direction target
    refine (yields_assignTarget_reads scopes _ target).bind fun named hnamed => .ok ?_
    rw [readsOf_singleton, Statement.exprs, List.flatMap_singleton, Expr.reads, Expr.reads, Expr.reads,
      List.append_nil]
    exact List.forall₂_map_left_iff.mpr (hnamed.imp fun _ _ => h.denotes)
  · exact .error _

theorem yields_split_locals (d : Declarator) :
    Yields (fun parts => d.locals = [parts.1] ∧ d.initial = parts.2.2) d.split := by
  unfold Declarator.split Declarator.locals
  cases d.binder with
  | name spelled => exact .ok ⟨rfl, rfl⟩
  | pattern => exact .error _

/-- A declaration reads in its initial value and adds a local variable. -/
theorem Visible.yields_bindDeclaration (h : Visible params locals scopes) (line : Nat)
    (declarators : List Declarator) :
    Yields (fun bound => List.Forall₂ (Read.Denotes params)
        (declarators.flatMap (Declarator.readsAt locals)) (Statement.readsOf [bound.1]) ∧
      Visible params (declarators.flatMap Declarator.locals ++ locals) bound.2)
      (bindDeclaration scopes line declarators) := by
  unfold bindDeclaration
  split
  · rename_i d
    refine (yields_split_locals d).bind fun parts hparts => ?_
    obtain ⟨name, isMutable, initial⟩ := parts
    obtain ⟨hlocals, hinitial⟩ := hparts
    cases initial with
    | none => exact .error _
    | some term =>
        refine (h.yields_readsAt term).bind fun e he => ?_
        refine (h.yields_bindName line name isMutable).bind fun inner hinner => .ok ⟨?_, ?_⟩
        · rw [readsOf_singleton, Statement.exprs, List.flatMap_singleton, List.flatMap_singleton,
            Declarator.readsAt, hinitial]
          exact he
        · rw [List.flatMap_singleton, hlocals]
          exact hinner
  · exact .error _

/-- The head of a loop declares its variable and bounds it in its test. -/
theorem yields_loopHead_bounds (line : Nat) (init : LoopInit) (test : Option LoopTest)
    (update : Option Term) :
    Yields (fun head => ∃ d testLine line op left, init = .declaration d ∧
        d.locals = [head.counter] ∧ d.initial = some head.first ∧
        test = some ⟨testLine, .binary line op left head.last⟩)
      (loopHead line init test update) := by
  intro head h
  have hcounts : LoopSpelling.Counts _ ⟨line, init, test, update⟩ head := LoopSpelling.head_eq_ok_iff.mp h
  cases hcounts with
  | intro hleft hupdate => exact ⟨_, _, _, _, _, rfl, rfl, rfl, rfl⟩

/-- Only a declaration changes what is visible to the statements that follow. -/
theorem Stmt.yields_visible (h : Visible params locals scopes) (stmt : Stmt) :
    Yields (fun out => Visible params (stmt.locals ++ locals) out.2)
      (stmt.elaborate scopes false) := by
  cases stmt with
  | declaration line declarators =>
      rw [Stmt.elaborate]
      exact (h.yields_bindDeclaration line declarators).bind fun bound hbound => .ok hbound.2
  | expression line term =>
      rw [Stmt.elaborate]
      exact .bind_any fun statement => .ok h
  | branch line condition consequent alternate =>
      rw [Stmt.elaborate.eq_def]
      refine .bind_any fun c => .bind_any fun t => ?_
      dsimp only
      split
      · exact .ok h
      · exact .bind_any fun e => .ok h
  | loop line init test update body =>
      rw [Stmt.elaborate]
      refine .bind_any fun head => .bind_any fun first => .bind_any fun inner => ?_
      exact .bind_any fun last => .bind_any fun out => .ok h
  | whileLoop line test body =>
      rw [Stmt.elaborate]
      exact .error _
  | result line value =>
      rw [Stmt.elaborate]
      exact .error _
  | block line statements =>
      rw [Stmt.elaborate]
      exact .error _

end

mutual

/-- **Statements.** The reads of a statement are those of its circuit statements, one by one, and each
denotes a local variable or a parameter. -/
theorem Stmt.yields_reads (params : List String) :
    ∀ (locals : List String) (scopes : Scopes) (isBody : Bool) (stmt : Stmt),
      Visible params locals scopes →
      Yields (fun out => List.Forall₂ (Read.Denotes params) (stmt.reads locals)
        (Statement.readsOf out.1)) (stmt.elaborate scopes isBody)
  | locals, scopes, _, .declaration line declarators, h => by
      rw [Stmt.elaborate]
      exact (h.yields_bindDeclaration line declarators).bind fun bound hbound => .ok hbound.1
  | locals, scopes, _, .expression line term, h => by
      rw [Stmt.elaborate]
      exact (yields_expressionStatement_reads h line term).bind fun statement hstatement =>
        .ok hstatement
  | locals, scopes, _, .branch _ condition consequent none, h => by
      rw [Stmt.elaborate, Stmt.reads]
      refine (h.yields_readsAt condition).bind fun c hc => ?_
      refine (Stmt.yields_reads params locals _ true consequent h.open).bind fun t ht => .ok ?_
      rw [readsOf_singleton, Statement.exprs, List.flatMap_cons]
      exact List.rel_append hc ht
  | locals, scopes, _, .branch _ condition consequent (some alternate), h => by
      rw [Stmt.elaborate, Stmt.reads]
      refine (h.yields_readsAt condition).bind fun c hc => ?_
      refine (Stmt.yields_reads params locals _ true consequent h.open).bind fun t ht => ?_
      refine (Stmt.yields_reads params locals _ true alternate h.open).bind fun e he => .ok ?_
      rw [readsOf_singleton, Statement.exprs, List.flatMap_cons, List.flatMap_append]
      exact List.rel_append hc (List.rel_append ht he)
  | locals, scopes, _, .loop line init test update body, h => by
      rw [Stmt.elaborate]
      refine (yields_loopHead_bounds line init test update).bind fun head hhead => ?_
      obtain ⟨d, testLine, binaryLine, op, left, rfl, hlocals, hinitial, rfl⟩ := hhead
      -- the loop variable is not visible to its first value
      refine (h.yields_readsAt head.first).bind fun first hfirst => ?_
      refine (h.open.yields_bindName line head.counter false).bind fun inner hinner => ?_
      refine (hinner.yields_readsAt head.last).bind fun last hlast => ?_
      refine (Stmt.yields_reads params _ _ true body hinner.open).bind fun out hout => .ok ?_
      rw [readsOf_singleton, Statement.exprs, List.flatMap_cons, List.flatMap_cons, Stmt.reads,
        Declarator.readsAt, hinitial, hlocals]
      exact List.rel_append hfirst (List.rel_append hlast hout)
  | _, _, _, .whileLoop .., _ => by
      rw [Stmt.elaborate]
      exact .error _
  | _, _, _, .result .., _ => by
      rw [Stmt.elaborate]
      exact .error _
  | locals, scopes, isBody, .block line statements, h => by
      rw [Stmt.elaborate, Stmt.reads]
      split
      · exact Stmt.yields_readsAll params locals scopes statements h
      · exact .error _

theorem Stmt.yields_readsAll (params : List String) :
    ∀ (locals : List String) (scopes : Scopes) (stmts : List Stmt), Visible params locals scopes →
      Yields (fun out => List.Forall₂ (Read.Denotes params) (Stmt.readsAll locals stmts)
        (Statement.readsOf out.1)) (Stmt.elaborateAll scopes stmts)
  | _, _, [], _ => by
      rw [Stmt.elaborateAll]
      exact .ok .nil
  | locals, scopes, stmt :: rest, h => by
      rw [Stmt.elaborateAll, Stmt.readsAll]
      have hstmt : Yields (fun out => List.Forall₂ (Read.Denotes params) (stmt.reads locals)
          (Statement.readsOf out.1) ∧ Visible params (stmt.locals ++ locals) out.2)
          (stmt.elaborate scopes false) := fun out hout =>
        ⟨Stmt.yields_reads params locals scopes false stmt h out hout,
          stmt.yields_visible h out hout⟩
      refine hstmt.bind fun out hout => ?_
      refine (Stmt.yields_readsAll params _ out.2 rest hout.2).bind fun more hmore => .ok ?_
      rw [readsOf_append]
      exact List.rel_append hout.1 hmore

end

/-! ## Scripts -/

theorem Body.yields_reads {params : List String} {scopes : Scopes} (h : Visible params [] scopes)
    (body : Body) :
    Yields (fun statements => List.Forall₂ (Read.Denotes params) body.reads
      (Statement.readsOf statements)) (body.elaborate scopes) := by
  cases body with
  | block stmts =>
      rw [Body.elaborate]
      exact (Stmt.yields_readsAll params [] scopes stmts h).bind fun out hout => .ok hout
  | expression term =>
      rw [Body.elaborate]
      refine (h.yields_readsAt term).bind fun e he => .ok ?_
      rw [readsOf_singleton, Statement.exprs, List.flatMap_singleton]
      exact he

/-- The parameters of a group with their positions, from an index on. -/
def numbered (index : Nat) (names : List String) : List Param :=
  (names.zipIdx index).map fun entry => ⟨entry.1, entry.2⟩

theorem map_name_numbered (index : Nat) (names : List String) :
    (numbered index names).map (·.name) = names := by
  rw [numbered, List.map_map]
  exact List.zipIdx_map_fst index names

/-- Parameters keep their spelling, and no two have one name. -/
theorem yields_patternParams (seen : List String) (index : Nat) (names : List (Nat × String)) :
    Yields (fun params => params = numbered index (names.map (·.2)) ∧
        (names.map (·.2)).Nodup ∧ ∀ name ∈ names.map (·.2), name ∉ seen)
      (patternParams seen index names) := by
  induction names generalizing seen index with
  | nil =>
      rw [patternParams]
      exact .ok ⟨rfl, List.nodup_nil, List.forall_mem_nil _⟩
  | cons entry rest ih =>
      rw [patternParams]
      split
      · exact .error _
      · rename_i hseen
        refine (ih (entry.2 :: seen) (index + 1)).bind fun params h => .ok ?_
        obtain ⟨rfl, hnodup, hnew⟩ := h
        refine ⟨rfl, List.nodup_cons.mpr ⟨fun hmem => hnew _ hmem List.mem_cons_self, hnodup⟩, ?_⟩
        exact List.forall_mem_cons.mpr
          ⟨hseen, fun name hname hmem => hnew name hname (List.mem_cons_of_mem _ hmem)⟩

/-- Parameters that are accepted: two patterns of names, no name twice. -/
structure Parameters.Lists (parameters : Parameters) (publics privates : List String) : Prop where
  patterns : ∃ line publicLine privateLine publicNames privateNames,
    parameters = .listed line [.pattern publicLine publicNames, .pattern privateLine privateNames] ∧
    publicNames.map (·.2) = publics ∧ privateNames.map (·.2) = privates
  nodup : (publics ++ privates).Nodup

theorem yields_groupParams (label : String) (seen : List String) (parameter : Parameter) :
    Yields (fun params => ∃ line names, parameter = .pattern line names ∧
        params = numbered 0 (names.map (·.2)) ∧ (names.map (·.2)).Nodup ∧
        ∀ name ∈ names.map (·.2), name ∉ seen)
      (groupParams label seen parameter) := by
  unfold groupParams
  cases parameter with
  | pattern line names =>
      exact fun params h => ⟨line, names, rfl, yields_patternParams seen 0 names params h⟩
  | plain line name => exact .error _

theorem Parameters.yields_lists (parameters : Parameters) :
    Yields (fun params => ∃ publics privates, parameters.Lists publics privates ∧
        params.1 = numbered 0 publics ∧ params.2 = numbered 0 privates) parameters.elaborate := by
  unfold Parameters.elaborate
  split
  · exact .error _
  · rename_i line first second
    refine (yields_groupParams _ _ first).bind fun publicParams hpublic => ?_
    refine (yields_groupParams _ _ second).bind fun privateParams hprivate => .ok ?_
    obtain ⟨publicLine, publicNames, rfl, rfl, hnodup, -⟩ := hpublic
    obtain ⟨privateLine, privateNames, rfl, rfl, hnodup', hnew⟩ := hprivate
    refine ⟨_, _, ⟨⟨line, publicLine, privateLine, publicNames, privateNames, rfl, rfl, rfl⟩, ?_⟩,
      rfl, rfl⟩
    rw [map_name_numbered] at hnew
    exact hnodup.append hnodup' fun name hname hname' => hnew name hname' hname
  · exact .error _

theorem stripMut_eq_self_iff {name : String} : (stripMut name).1 = name ↔ (stripMut name).2 = false := by
  unfold stripMut
  split
  · rename_i c rest hname
    simp only [Bool.true_eq_false, iff_false]
    intro h
    have hlen := congrArg List.length (hname.symm.trans (congrArg String.toList h).symm)
    simp only [String.toList_ofList, List.length_cons] at hlen
    omega
  · exact ⟨fun _ => rfl, fun _ => rfl⟩

/-- Only the parameters are visible before the body. -/
theorem visible_params (params : List Param) :
    Visible (params.map (·.name)) [] [params.map fun p => (p.name, false)] := by
  intro name hname
  have hlookup := Scopes.scope_singleton (params.map fun p => (p.name, false)) name
  rw [Scopes.scope] at hlookup
  rw [hlookup] at hname
  obtain ⟨isMutable, hsome⟩ := Option.isSome_iff_exists.mp hname
  obtain ⟨before, after, hblock, -⟩ := List.lookup_eq_some_iff.mp hsome
  have hmem : (name, isMutable) ∈ params.map fun p => (p.name, false) := by
    rw [hblock]
    exact List.mem_append_right _ List.mem_cons_self
  obtain ⟨p, hp, hentry⟩ := List.mem_map.mp hmem
  exact .inr (List.mem_map.mpr ⟨p, hp, congrArg Prod.fst hentry⟩)

/-- **Circuits.** What the parameters and the reads of a script become. -/
theorem lists_and_reads_of_parse {text : String} {c : Circuit} (h : Circuit.parse text = .ok c) :
    ∃ parameters body, Definition.parse text.toList = .ok ⟨parameters, body⟩ ∧
      (∃ publics privates, parameters.Lists publics privates ∧
        c.publicParams = numbered 0 publics ∧ c.privateParams = numbered 0 privates) ∧
      List.Forall₂ (Read.Denotes ((c.publicParams ++ c.privateParams).map (·.name))) body.reads
        c.reads := by
  rw [Circuit.parse] at h
  split at h
  · cases h
  · rename_i d hd
    obtain ⟨⟨publicParams, privateParams⟩, hparams, h⟩ := bind_eq_ok h
    obtain ⟨statements, hstatements, h⟩ := bind_eq_ok h
    cases h
    refine ⟨d.parameters, d.body, hd, d.parameters.yields_lists _ hparams, ?_⟩
    refine Body.yields_reads ?_ d.body statements hstatements
    exact visible_params _

/-- **Parameters.** In every script that is read, the places at which a variable is read match the
reads of the circuit one by one, and each stands for its spelling without the mark.  But parameters keep
the name that they are spelled with: a read that is spelled like a parameter `p` stands for the name of
`p` exactly if that name has no mark.  Where no local variable has the name it stands for, that is the
name of a parameter `q`, and lowering finds the index of `q` for it. -/
theorem read_denotes_parameter_iff (text : String) (c : Circuit) (h : Circuit.parse text = .ok c) :
    ∃ parameters body, Definition.parse text.toList = .ok ⟨parameters, body⟩ ∧
      parameters.Lists (c.publicParams.map (·.name)) (c.privateParams.map (·.name)) ∧
      List.Forall₂ (fun read name => name = (stripMut read.spelled).1 ∧
        ∀ p ∈ c.publicParams ++ c.privateParams, read.spelled = p.name →
          (name = p.name ↔ (stripMut p.name).2 = false) ∧
          (name ∉ read.locals →
            ∃ q ∈ c.publicParams ++ c.privateParams, name = q.name ∧ (q = p ↔ name = p.name) ∧
              ∃ i, c.paramNames[i]? = some q.name ∧
                ∀ settings before s, lowerStatements settings before (paramState c) = .ok s →
                  s.lookup? name = some ⟨i + 1, false⟩))
        body.reads c.reads := by
  obtain ⟨parameters, body, hd, ⟨publics, privates, hlists, hpublic, hprivate⟩, hreads⟩ :=
    lists_and_reads_of_parse h
  have hpublics : c.publicParams.map (·.name) = publics := by rw [hpublic, map_name_numbered]
  have hprivates : c.privateParams.map (·.name) = privates := by rw [hprivate, map_name_numbered]
  have hnodup : ((c.publicParams ++ c.privateParams).map (·.name)).Nodup := by
    rw [List.map_append, hpublics, hprivates]
    exact hlists.nodup
  have hnames : c.paramNames.Nodup := by
    rw [Circuit.paramNames, List.nodup_append_comm, ← List.map_append]
    exact hnodup
  refine ⟨parameters, body, hd, hpublics ▸ hprivates ▸ hlists, hreads.imp fun read name hread => ?_⟩
  obtain ⟨hname, hbound⟩ := hread
  refine ⟨hname, fun p hp hspelled => ⟨?_, fun hlocal => ?_⟩⟩
  · rw [hname, hspelled]
    exact stripMut_eq_self_iff
  · -- what is no local variable is a parameter
    obtain ⟨q, hq, hqname⟩ := List.mem_map.mp (hbound.resolve_left hlocal)
    refine ⟨q, hq, hqname.symm, ⟨fun hqp => hqp ▸ hqname.symm, fun heq => ?_⟩, ?_⟩
    · exact List.inj_on_of_nodup_map hnodup hq hp (hqname.trans heq)
    · have hmem : name ∈ c.paramNames := by
        rw [Circuit.paramNames, List.mem_append, or_comm, ← List.mem_append, ← List.map_append]
        exact List.mem_map.mpr ⟨q, hq, hqname⟩
      obtain ⟨i, hi⟩ := List.mem_iff_getElem?.mp hmem
      exact ⟨i, hqname ▸ hi, fun settings before s hs => lookup?_of_nodup hs hnames hi⟩

/-- Two public parameters whose names differ in the mark, of which the marked one is compared. -/
def markedScript : String := "([a, mut_a], [b]) => { assert(mut_a == b); }"

/-- What the grammar makes of `markedScript`. -/
def markedDefinition : Definition where
  parameters := .listed 1 [.pattern 1 [(1, "a"), (1, "mut_a")], .pattern 1 [(1, "b")]]
  body := .block [.expression 1 (.call 1 (.ident 1 "assert")
    [.binary 1 .eq (.ident 1 "mut_a") (.ident 1 "b")])]

/-- The circuit of `markedScript`. -/
def markedCircuit : Circuit where
  publicParams := [⟨"a", 0⟩, ⟨"mut_a", 1⟩]
  privateParams := [⟨"b", 0⟩]
  statements := [.assert (.binary .eq (.identifier "a") (.identifier "b")) none]

/-- The read of the marked parameter stands for the other one. -/
theorem read_denotes_parameter_iff_marked :
    Circuit.parse markedScript = .ok markedCircuit ∧
      Definition.parse markedScript.toList = .ok markedDefinition ∧
      markedDefinition.body.reads = [⟨"mut_a", []⟩, ⟨"b", []⟩] ∧
      ∃ name, markedCircuit.reads.head? = some name ∧ name ≠ "mut_a" ∧
        ∃ q ∈ markedCircuit.publicParams ++ markedCircuit.privateParams,
          name = q.name ∧ q ≠ ⟨"mut_a", 1⟩ := by
  have hdefinition : Definition.parse markedScript.toList = .ok markedDefinition := by cbv
  have hparse : Circuit.parse markedScript = .ok markedCircuit := by
    rw [Circuit.parse, hdefinition]
    rfl
  have hreads : markedDefinition.body.reads = [⟨"mut_a", []⟩, ⟨"b", []⟩] := rfl
  obtain ⟨parameters, body, hd, -, hforall⟩ :=
    read_denotes_parameter_iff markedScript markedCircuit hparse
  cases hdefinition.symm.trans hd
  change List.Forall₂ _ [Read.mk "mut_a" [], Read.mk "b" []] ["a", "b"] at hforall
  obtain ⟨hfirst, -⟩ := List.forall₂_cons.mp hforall
  obtain ⟨hiff, hparam⟩ := hfirst.2 ⟨"mut_a", 1⟩ (by decide) rfl
  have hne : "a" ≠ "mut_a" := fun h => absurd (hiff.mp h) (by decide)
  obtain ⟨q, hq, hname, hqp, -⟩ := hparam List.not_mem_nil
  exact ⟨hparse, hdefinition, hreads, "a", rfl, hne, q, hq, hname, fun h => hne (hqp.mp h)⟩

end Script

end ArrowCircuit
