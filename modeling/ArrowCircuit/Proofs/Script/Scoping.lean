import ArrowCircuit.Proofs.Circuit.Scope
import ArrowCircuit.Proofs.Outcome
import ArrowCircuit.Script.Elaboration

/-!
# Scoping of scripts

A script that is elaborated gives a circuit whose statements are scoped: every name has been resolved,
declarations do not repeat a name of the block of the parameters, and assignments have a mutable target.
Statements inside branches and loops have blocks of their own and are not looked into.
-/

namespace ArrowCircuit.Script

/-- The names in open blocks, as a scope. -/
def Scopes.scope (scopes : Scopes) : Scope := fun name => scopes.lookup? name

theorem Scopes.scope_singleton (block : Block) (name : String) :
    Scopes.scope [block] name = List.lookup name block := by
  rw [scope, lookup?]
  cases List.lookup name block <;> rfl

theorem Scopes.scope_cons (name : String) (isMutable : Bool) (block : Block) :
    Scopes.scope [(name, isMutable) :: block] =
      Function.update (Scopes.scope [block]) name (some isMutable) := by
  funext other
  rw [scope_singleton, List.lookup_cons, Function.update_apply, scope_singleton]
  by_cases h : other = name
  · rw [if_pos h, beq_iff_eq.mpr h]
  · rw [if_neg h, beq_eq_false_iff_ne.mpr h]

/-! ## Expressions -/

theorem yields_resolve (scopes : Scopes) (line : Nat) (name : String) :
    Yields (fun isMutable => scopes.scope name = some isMutable) (resolve scopes line name) := by
  rw [resolve]
  split
  · rename_i isMutable h
    exact .ok h
  · exact .error _

theorem closed_negate {scope : Scope} {e : Expr} (h : e.Closed scope) : (negate e).Closed scope := by
  unfold negate
  split
  · exact trivial
  · exact h

/-- The operands of an elaborated expression are in scope. -/
theorem Term.yields_elaborate (scopes : Scopes) :
    ∀ term : Term, Yields (Expr.Closed scopes.scope) (term.elaborate scopes)
  | .ident line spelled => by
      rw [Term.elaborate]
      refine (yields_resolve scopes line _).bind fun isMutable h => .ok ?_
      rw [Expr.Closed, h, Option.isSome_some]
  | .binary _ op left right => by
      rw [Term.elaborate]
      exact (left.yields_elaborate scopes).bind fun l hl =>
        (right.yields_elaborate scopes).bind fun r hr => .ok ⟨hl, hr⟩
  | .unary line .neg operand => by
      rw [Term.elaborate]
      exact (operand.yields_elaborate scopes).bind fun e he => .ok (closed_negate he)
  | .unary line .not operand => by
      rw [Term.elaborate]
      exact (operand.yields_elaborate scopes).bind fun e he => .ok he
  | .unary line .pos operand => by
      rw [Term.elaborate]
      exact .error _
  | .number _ digits => by
      rw [Term.elaborate]
      exact .bind_any fun z => .ok trivial
  | .string _ literal => by
      rw [Term.elaborate]
      split
      · exact .ok trivial
      · exact .error _
  | .bool _ b => by
      rw [Term.elaborate]
      exact .ok trivial
  | .array _ elements => by
      rw [Term.elaborate]
      exact .bind_any fun es => .ok trivial
  | .step .. => by
      rw [Term.elaborate]
      exact .error _
  | .assign .. => by
      rw [Term.elaborate]
      exact .error _
  | .ternary _ condition consequent alternate => by
      rw [Term.elaborate]
      exact .bind_any fun c => .bind_any fun t => .bind_any fun e => .ok trivial
  | .index _ object position => by
      rw [Term.elaborate]
      exact .bind_any fun o => .bind_any fun p => .ok trivial
  | .property line object name => by
      rw [Term.elaborate]
      split
      · exact .bind_any fun o => .ok trivial
      · exact .error _
  | .call _ callee arguments => by
      rw [Term.elaborate.eq_def]
      dsimp only
      split
      · exact .bind_any fun o => .bind_any fun es => .ok trivial
      · exact .bind_any fun es => .ok trivial
      · exact .bind_any fun e => .bind_any fun es => .ok trivial

theorem Term.yields_elaborateAll (scopes : Scopes) (terms : List Term) :
    Yields (fun es => ∀ e ∈ es, e.Closed scopes.scope) (Term.elaborateAll scopes terms) := by
  induction terms with
  | nil =>
      rw [Term.elaborateAll]
      exact .ok nofun
  | cons term rest ih =>
      rw [Term.elaborateAll]
      exact (term.yields_elaborate scopes).bind fun e he =>
        ih.bind fun es hes => .ok (List.forall_mem_cons.mpr ⟨he, hes⟩)

/-! ## Statements -/

theorem yields_assertion {scope : Scope} (line : Nat) {es : List Expr}
    (h : ∀ e ∈ es, e.Closed scope) :
    Yields (fun statement => ∃ condition message, statement = .assert condition message ∧
      condition.Closed scope) (assertion line es) := by
  unfold assertion
  split
  · exact .ok ⟨_, _, rfl, h _ List.mem_cons_self⟩
  · exact .ok ⟨_, _, rfl, h _ List.mem_cons_self⟩
  · exact .error _
  · exact .error _

theorem yields_assignTarget (scopes : Scopes) (line : Nat) (target : Term) :
    Yields (fun named => scopes.scope named.1 = some true) (assignTarget scopes line target) := by
  unfold assignTarget
  split
  · refine (yields_resolve scopes _ _).bind fun isMutable h => ?_
    cases isMutable with
    | true => exact .ok h
    | false => exact .error _
  · exact .error _

/-- A statement that is an expression uses names in scope and declares none. -/
theorem yields_expressionStatement (scopes : Scopes) (line : Nat) (term : Term) :
    Yields (fun statement => statement.Scoped scopes.scope ∧
      statement.extend scopes.scope = scopes.scope) (expressionStatement scopes line term) := by
  -- the target of an assignment is in scope, and so may be an operand of its value
  have htarget : ∀ {name : String}, scopes.scope name = some true →
      (Expr.identifier name).Closed scopes.scope := by
    intro name h
    rw [Expr.Closed, h, Option.isSome_some]
  unfold expressionStatement
  split
  · refine (Term.yields_elaborateAll scopes _).bind fun es hes statement h => ?_
    obtain ⟨condition, message, rfl, hcondition⟩ := yields_assertion _ hes statement h
    exact ⟨hcondition, rfl⟩
  · rename_i op target value
    refine (yields_assignTarget scopes _ target).bind fun named hnamed => ?_
    refine (value.yields_elaborate scopes).bind fun e he => ?_
    split
    · exact .ok ⟨⟨hnamed, he⟩, rfl⟩
    · exact .ok ⟨⟨hnamed, htarget hnamed, he⟩, rfl⟩
  · rename_i direction target
    refine (yields_assignTarget scopes _ target).bind fun named hnamed => ?_
    exact .ok ⟨⟨hnamed, htarget hnamed, trivial⟩, rfl⟩
  · exact .error _

theorem yields_bindName (block : Block) (line : Nat) (name : String) (isMutable : Bool) :
    Yields (fun scopes => scopes = [(name, isMutable) :: block] ∧ Scopes.scope [block] name = none)
      (bindName [block] line name isMutable) := by
  rw [bindName, Scopes.declare?]
  split
  · rename_i h
    split at h
    · cases h
    · rename_i hnone
      cases h
      rw [Option.not_isSome_iff_eq_none] at hnone
      exact .ok ⟨rfl, (Scopes.scope_singleton block name).trans hnone⟩
  · exact .error _

/-- What an elaborated part leaves behind, where only one block is open: a scoped statement, and the
block with the name that it declares. -/
def Extends (block : Block) (statement : Statement) (scopes : Scopes) : Prop :=
  statement.Scoped (Scopes.scope [block]) ∧
    ∃ block', scopes = [block'] ∧
      Scopes.scope [block'] = statement.extend (Scopes.scope [block])

/-- The value of a declaration is elaborated before its name is declared. -/
theorem yields_bindDeclaration (block : Block) (line : Nat) (declarators : List Declarator) :
    Yields (fun bound => Extends block bound.1 bound.2)
      (bindDeclaration [block] line declarators) := by
  unfold bindDeclaration
  split
  · refine .bind_any fun parts => ?_
    obtain ⟨name, isMutable, initial⟩ := parts
    cases initial with
    | none => exact .error _
    | some term =>
        refine (term.yields_elaborate [block]).bind fun e he => ?_
        refine (yields_bindName block line name isMutable).bind fun scopes hscopes => ?_
        obtain ⟨rfl, hnew⟩ := hscopes
        exact .ok ⟨⟨hnew, he⟩, _, rfl, Scopes.scope_cons name isMutable block⟩
  · exact .error _

/-- A statement at the top of a script. -/
theorem Stmt.yields_elaborate (block : Block) (stmt : Stmt) :
    Yields (fun out => ∃ statement, out.1 = [statement] ∧ Extends block statement out.2)
      (stmt.elaborate [block] false) := by
  cases stmt with
  | declaration line declarators =>
      rw [Stmt.elaborate]
      exact (yields_bindDeclaration block line declarators).bind fun bound h => .ok ⟨_, rfl, h⟩
  | expression line term =>
      rw [Stmt.elaborate]
      refine (yields_expressionStatement [block] line term).bind fun statement h => ?_
      exact .ok ⟨_, rfl, h.1, _, rfl, h.2.symm⟩
  | branch line condition consequent alternate =>
      rw [Stmt.elaborate.eq_def]
      refine .bind_any fun c => .bind_any fun t => ?_
      dsimp only
      split
      · exact .ok ⟨_, rfl, trivial, _, rfl, rfl⟩
      · exact .bind_any fun e => .ok ⟨_, rfl, trivial, _, rfl, rfl⟩
  | loop line init test update body =>
      rw [Stmt.elaborate]
      refine .bind_any fun head => .bind_any fun first => .bind_any fun inner => ?_
      exact .bind_any fun last => .bind_any fun out => .ok ⟨_, rfl, trivial, _, rfl, rfl⟩
  | whileLoop line test body =>
      rw [Stmt.elaborate]
      exact .error _
  | result line value =>
      rw [Stmt.elaborate]
      exact .error _
  | block line statements =>
      rw [Stmt.elaborate]
      exact .error _

/-- **Statements.** The statements at the top of a script are scoped, one after another. -/
theorem Stmt.yields_elaborateAll (block : Block) (stmts : List Stmt) :
    Yields (fun out => ScopedAll (Scopes.scope [block]) out.1) (Stmt.elaborateAll [block] stmts) := by
  induction stmts generalizing block with
  | nil =>
      rw [Stmt.elaborateAll]
      exact .ok trivial
  | cons stmt rest ih =>
      rw [Stmt.elaborateAll]
      refine (stmt.yields_elaborate block).bind fun out h => ?_
      obtain ⟨statements, scopes⟩ := out
      obtain ⟨statement, rfl, hscoped, block', rfl, hscope⟩ := h
      refine (ih block').bind fun out hrest => .ok ⟨hscoped, ?_⟩
      rwa [← hscope]

/-! ## Scripts -/

theorem Body.yields_elaborate (block : Block) (body : Body) :
    Yields (ScopedAll (Scopes.scope [block])) (body.elaborate [block]) := by
  cases body with
  | block stmts =>
      rw [Body.elaborate]
      exact (Stmt.yields_elaborateAll block stmts).bind fun out h => .ok h
  | expression term =>
      rw [Body.elaborate]
      exact (term.yields_elaborate [block]).bind fun e he => .ok ⟨he, trivial⟩

/-- The block of the parameters of a circuit: none may be assigned. -/
def paramBlock (c : Circuit) : Block :=
  (c.publicParams ++ c.privateParams).map fun p => (p.name, false)

/-- **Scripts.** The statements of a circuit that was read are scoped behind its parameters. -/
theorem scopedAll_of_parse {text : String} {c : Circuit} (h : Circuit.parse text = .ok c) :
    ScopedAll (Scopes.scope [paramBlock c]) c.statements := by
  rw [Circuit.parse] at h
  split at h
  · cases h
  · rename_i d _
    obtain ⟨⟨publicParams, privateParams⟩, -, h⟩ := bind_eq_ok h
    obtain ⟨statements, hstatements, h⟩ := bind_eq_ok h
    cases h
    exact d.body.yields_elaborate _ statements hstatements

end ArrowCircuit.Script
