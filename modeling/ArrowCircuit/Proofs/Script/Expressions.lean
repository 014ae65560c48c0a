import ArrowCircuit.Proofs.Script.LoopHead
import ArrowCircuit.Proofs.Script.Names
import ArrowCircuit.Proofs.Text.Escaped
import Mathlib.Tactic.Ring

/-!
# Expressions of scripts

What can stand in a circuit that was read from a script.  Identifiers and the names of methods are
words, texts are made of code points, every operator is a known one, no node is out of place, and a
minus sign before an integer is a part of the integer.
-/

namespace ArrowCircuit

/-! ## Parts -/

/-- The expressions right below an expression. -/
def Expr.children : Expr → List Expr
  | .identifier _ | .literal _ | .foreign _ => []
  | .binary _ left right | .otherBinary _ left right => [left, right]
  | .unary _ operand | .otherUnary _ operand => [operand]
  | .index object position => [object, position]
  | .call callee _ arguments => callee :: arguments
  | .array elements => elements
  | .conditional condition consequent alternate => [condition, consequent, alternate]

/-- The parts of an expression: the expression itself, and the parts of those below it. -/
inductive Expr.Part (part : Expr) : Expr → Prop
  | self : Part part part
  | inside {child e : Expr} (hchild : child ∈ e.children) (h : Part part child) : Part part e

/-- All parts of an expression have a property. -/
def Expr.Everywhere (P : Expr → Prop) (e : Expr) : Prop := ∀ part : Expr, part.Part e → P part

namespace Expr

variable {P : Expr → Prop} {e part : Expr}

theorem Part.trans {inner : Expr} (h : inner.Part part) (hpart : part.Part e) : inner.Part e := by
  induction hpart with
  | self => exact h
  | inside hchild _ ih => exact .inside hchild ih

theorem Everywhere.of_part (h : e.Everywhere P) (hpart : part.Part e) : part.Everywhere P :=
  fun _ hinner => h _ (hinner.trans hpart)

theorem everywhere_iff : e.Everywhere P ↔ P e ∧ ∀ child ∈ e.children, child.Everywhere P := by
  constructor
  · intro h
    exact ⟨h e .self, fun child hchild => h.of_part (.inside hchild .self)⟩
  · rintro ⟨he, hchildren⟩ part hpart
    cases hpart with
    | self => exact he
    | inside hchild h => exact hchildren _ hchild _ h

section Nodes

variable {op : BinaryOp} {l r object position callee condition consequent alternate : Expr}
  {arguments elements : List Expr}

@[simp]
theorem everywhere_identifier {name : String} :
    (identifier name).Everywhere P ↔ P (.identifier name) :=
  everywhere_iff.trans (by simp [children])

@[simp]
theorem everywhere_literal {v : Literal} : (literal v).Everywhere P ↔ P (.literal v) :=
  everywhere_iff.trans (by simp [children])

@[simp]
theorem everywhere_binary :
    (binary op l r).Everywhere P ↔ P (.binary op l r) ∧ l.Everywhere P ∧ r.Everywhere P :=
  everywhere_iff.trans (by simp [children])

@[simp]
theorem everywhere_unary {op : UnaryOp} :
    (unary op e).Everywhere P ↔ P (.unary op e) ∧ e.Everywhere P :=
  everywhere_iff.trans (by simp [children])

@[simp]
theorem everywhere_index : (index object position).Everywhere P ↔
    P (.index object position) ∧ object.Everywhere P ∧ position.Everywhere P :=
  everywhere_iff.trans (by simp [children])

@[simp]
theorem everywhere_call {method : Option String} : (call callee method arguments).Everywhere P ↔
    P (.call callee method arguments) ∧ callee.Everywhere P ∧ ∀ e ∈ arguments, e.Everywhere P :=
  everywhere_iff.trans (by simp [children])

@[simp]
theorem everywhere_array : (array elements).Everywhere P ↔
    P (.array elements) ∧ ∀ e ∈ elements, e.Everywhere P :=
  everywhere_iff

@[simp]
theorem everywhere_conditional : (conditional condition consequent alternate).Everywhere P ↔
    P (.conditional condition consequent alternate) ∧ condition.Everywhere P ∧
      consequent.Everywhere P ∧ alternate.Everywhere P :=
  everywhere_iff.trans (by simp [children])

end Nodes

end Expr

mutual

/-- The expressions that a statement holds. -/
def Statement.exprs : Statement → List Expr
  | .assert condition _ => [condition]
  | .declare _ _ initial => [initial]
  | .assign _ value _ => [value]
  | .branch condition consequent none => condition :: Statement.exprsOf consequent
  | .branch condition consequent (some alternate) =>
    condition :: (Statement.exprsOf consequent ++ Statement.exprsOf alternate)
  | .loop _ first last _ body => first :: last :: Statement.exprsOf body
  | .foreign _ => []

/-- The expressions that a list of statements holds. -/
def Statement.exprsOf : List Statement → List Expr
  | [] => []
  | statement :: rest => statement.exprs ++ Statement.exprsOf rest

end

theorem Statement.exprsOf_singleton (statement : Statement) :
    Statement.exprsOf [statement] = statement.exprs := by
  rw [Statement.exprsOf, Statement.exprsOf, List.append_nil]

theorem Statement.exprsOf_append (statements rest : List Statement) :
    Statement.exprsOf (statements ++ rest) =
      Statement.exprsOf statements ++ Statement.exprsOf rest := by
  induction statements with
  | nil => rfl
  | cons statement statements ih =>
      rw [List.cons_append, Statement.exprsOf, Statement.exprsOf, ih, List.append_assoc]

/-- An expression that can be produced from a script: a part of one in a circuit that was read. -/
def Expr.FromScript (e : Expr) : Prop :=
  ∃ text c, Circuit.parse text = .ok c ∧ ∃ whole ∈ Statement.exprsOf c.statements, e.Part whole

/-! ## Plain expressions -/

open Script in
/-- What every node of an expression from a script satisfies. -/
def Expr.PlainNode : Expr → Prop
  | .identifier name => IsWord name.toList
  | .literal (.text t) => Text.InRange t
  | .unary .neg (.literal (.int _)) => False
  | .call _ (some name) _ => IsWord name.toList
  | .otherBinary .. | .otherUnary .. | .foreign _ => False
  | _ => True

/-- An expression whose nodes are as those from scripts are. -/
def Expr.Plain (e : Expr) : Prop := e.Everywhere Expr.PlainNode

end ArrowCircuit

namespace ArrowCircuit.Script

/-! ## Names and texts -/

/-- The mark of mutability is split off a name without leaving nothing. -/
theorem isWord_stripMut {name : String} (h : IsWord name.toList) :
    IsWord (stripMut name).1.toList := by
  unfold stripMut
  split
  · rename_i c rest hname
    rw [hname] at h
    rw [String.toList_ofList]
    exact ⟨List.cons_ne_nil _ _, fun d hd => h.2 d (by simp only [List.mem_cons] at hd ⊢; tauto)⟩
  · exact h

theorem lt_of_letterEscape? {c : Char} {point : Nat} (h : letterEscape? c = some point) :
    point < 0x110000 := by
  unfold letterEscape? at h
  split at h <;> first | (cases h; decide) | cases h

theorem lt_of_octalValue? {c : Char} {d : Nat} (h : octalValue? c = some d) : d < 8 := by
  unfold octalValue? at h
  split at h
  · rename_i hc
    cases h
    have hle : c.toNat ≤ '7'.toNat := hc.2
    have h7 : '7'.toNat = 0x37 := rfl
    omega
  · cases h

/-- An escape of octal digits stays small. -/
theorem readOctal_lt (width : Nat) {value bound : Nat} (h : value < bound) (cs : List Char) :
    (readOctal width value cs).1 < bound * 8 ^ width := by
  induction width generalizing value bound cs with
  | zero =>
      rw [readOctal, pow_zero, mul_one]
      exact h
  | succ width ih =>
      have hgrow : bound ≤ bound * 8 ^ (width + 1) := Nat.le_mul_of_pos_right _ (Nat.pow_pos (by decide))
      cases cs with
      | nil => exact h.trans_le hgrow
      | cons c cs =>
          rw [readOctal]
          split
          · rename_i d hd
            have hnext : value * 8 + d < bound * 8 := by
              have := lt_of_octalValue? hd
              omega
            rw [pow_succ', ← mul_assoc]
            exact ih hnext cs
          · exact h.trans_le hgrow

theorem char_toNat_lt (c : Char) : c.toNat < 0x110000 := by
  have hvalid := c.valid
  unfold UInt32.isValidChar Nat.isValidChar at hvalid
  change c.val.toNat < _
  omega

/-- What stands between the quotes of a string literal is made of code points. -/
theorem inRange_of_unescape {fuel : Nat} {cs : List Char} {t : Text}
    (h : unescape fuel cs = some t) : Text.InRange t := by
  have hcons : ∀ {point : Nat} {r : Option Text} {t : Text}, point < 0x110000 →
      (∀ {u : Text}, r = some u → Text.InRange u) → r.map (point :: ·) = some t →
      Text.InRange t := by
    intro point r t hpoint hr h
    obtain ⟨u, hu, rfl⟩ := Option.map_eq_some_iff.mp h
    exact List.forall_mem_cons.mpr ⟨hpoint, hr hu⟩
  fun_induction unescape fuel cs generalizing t with
  | case1 =>
      cases h
      exact nofun
  | case3 fuel c rest point hletter ih => exact hcons (lt_of_letterEscape? hletter) ih h
  | case4 fuel c rest d hoctal _ point rest' hread ih =>
      have hpoint := readOctal_lt 2 (lt_of_octalValue? hoctal) rest
      rw [hread] at hpoint
      exact hcons (hpoint.trans (by decide)) ih h
  | case5 fuel c rest width _ _ _ point rest' _ hpoint ih => exact hcons hpoint ih h
  | case9 fuel rest _ _ _ _ ih => exact ih h
  | case10 fuel c rest _ _ _ _ _ ih =>
      obtain ⟨u, hu, rfl⟩ := Option.map_eq_some_iff.mp h
      exact List.forall_mem_cons.mpr ⟨by decide, List.forall_mem_cons.mpr ⟨char_toNat_lt c, ih hu⟩⟩
  | case12 fuel c rest _ _ ih => exact hcons (char_toNat_lt c) ih h
  | case2 | case6 | case7 | case8 | case11 => cases h

theorem inRange_of_stringValue? {literal : List Char} {t : Text}
    (h : stringValue? literal = some t) : Text.InRange t := by
  rw [stringValue?] at h
  split at h
  · cases h
  · exact inRange_of_unescape h

/-! ## Terms -/

theorem plain_identifier {name : String} (h : IsWord name.toList) : (Expr.identifier name).Plain :=
  Expr.everywhere_identifier.mpr h

theorem plain_binary {op : BinaryOp} {l r : Expr} (hl : l.Plain) (hr : r.Plain) :
    (Expr.binary op l r).Plain :=
  Expr.everywhere_binary.mpr ⟨trivial, hl, hr⟩

theorem plain_int (z : Int) : (Expr.literal (.int z)).Plain :=
  Expr.everywhere_literal.mpr trivial

theorem plain_negate {e : Expr} (h : e.Plain) : (negate e).Plain := by
  unfold negate
  split
  · exact plain_int _
  · rename_i hint
    refine Expr.everywhere_unary.mpr ⟨?_, h⟩
    cases e with
    | literal v =>
        cases v with
        | int z => exact (hint z rfl).elim
        | _ => trivial
    | _ => trivial

mutual

/-- A term whose names are words gives a plain expression. -/
theorem Term.yields_plain (scopes : Scopes) :
    ∀ term : Term, term.Named → Yields Expr.Plain (term.elaborate scopes)
  | .ident line spelled, h => by
      rw [Term.elaborate]
      exact .bind_any fun _ => .ok (plain_identifier (isWord_stripMut h))
  | .number _ digits, _ => by
      rw [Term.elaborate]
      exact .bind_any fun z => .ok (plain_int z)
  | .string _ literal, _ => by
      rw [Term.elaborate]
      split
      · rename_i t ht
        exact .ok (Expr.everywhere_literal.mpr (inRange_of_stringValue? ht))
      · exact .error _
  | .bool _ b, _ => by
      rw [Term.elaborate]
      exact .ok (Expr.everywhere_literal.mpr trivial)
  | .array _ elements, h => by
      rw [Term.elaborate]
      exact (Term.yields_plainAll scopes elements h).bind fun es hes =>
        .ok (Expr.everywhere_array.mpr ⟨trivial, hes⟩)
  | .binary _ op left right, h => by
      rw [Term.elaborate]
      exact (left.yields_plain scopes h.1).bind fun l hl =>
        (right.yields_plain scopes h.2).bind fun r hr => .ok (plain_binary hl hr)
  | .unary line .neg operand, h => by
      rw [Term.elaborate]
      exact (operand.yields_plain scopes h).bind fun e he => .ok (plain_negate he)
  | .unary line .not operand, h => by
      rw [Term.elaborate]
      exact (operand.yields_plain scopes h).bind fun e he =>
        .ok (Expr.everywhere_unary.mpr ⟨trivial, he⟩)
  | .unary line .pos operand, _ => by
      rw [Term.elaborate]
      exact .error _
  | .step .., _ => by
      rw [Term.elaborate]
      exact .error _
  | .assign .., _ => by
      rw [Term.elaborate]
      exact .error _
  | .ternary _ condition consequent alternate, h => by
      rw [Term.elaborate]
      refine (condition.yields_plain scopes h.1).bind fun c hc => ?_
      refine (consequent.yields_plain scopes h.2.1).bind fun t ht => ?_
      refine (alternate.yields_plain scopes h.2.2).bind fun e he => ?_
      exact .ok (Expr.everywhere_conditional.mpr ⟨trivial, hc, ht, he⟩)
  | .index _ object position, h => by
      rw [Term.elaborate]
      refine (object.yields_plain scopes h.1).bind fun o ho => ?_
      refine (position.yields_plain scopes h.2).bind fun p hp => ?_
      exact .ok (Expr.everywhere_index.mpr ⟨trivial, ho, hp⟩)
  | .property line object name, h => by
      rw [Term.elaborate]
      split
      · refine (object.yields_plain scopes h.1).bind fun o ho => ?_
        exact .ok (Expr.everywhere_call.mpr
          ⟨(by decide : IsWord "len".toList), ho, List.forall_mem_nil _⟩)
      · exact .error _
  | .call _ callee arguments, h => by
      have harguments := Term.yields_plainAll scopes arguments h.2
      rw [Term.elaborate.eq_def]
      dsimp only
      split
      · rename_i object name
        refine (object.yields_plain scopes h.1.1).bind fun o ho => ?_
        refine harguments.bind fun es hes => ?_
        exact .ok (Expr.everywhere_call.mpr ⟨h.1.2, ho, hes⟩)
      · refine harguments.bind fun es hes => ?_
        exact .ok (Expr.everywhere_call.mpr ⟨trivial, plain_identifier h.1, hes⟩)
      · refine (callee.yields_plain scopes h.1).bind fun e he => ?_
        refine harguments.bind fun es hes => ?_
        exact .ok (Expr.everywhere_call.mpr ⟨trivial, he, hes⟩)

theorem Term.yields_plainAll (scopes : Scopes) :
    ∀ terms : List Term, Term.NamedAll terms →
      Yields (fun es => ∀ e ∈ es, e.Plain) (Term.elaborateAll scopes terms)
  | [], _ => by
      rw [Term.elaborateAll]
      exact .ok nofun
  | term :: rest, h => by
      rw [Term.elaborateAll]
      exact (term.yields_plain scopes h.1).bind fun e he =>
        (Term.yields_plainAll scopes rest h.2).bind fun es hes =>
          .ok (List.forall_mem_cons.mpr ⟨he, hes⟩)

end

/-! ## Statements -/

/-- The expressions of statements are plain. -/
def PlainStatements (statements : List Statement) : Prop :=
  ∀ e ∈ Statement.exprsOf statements, e.Plain

theorem plainStatements_singleton {statement : Statement} (h : ∀ e ∈ statement.exprs, e.Plain) :
    PlainStatements [statement] := by
  rw [PlainStatements, Statement.exprsOf_singleton]
  exact h

theorem plainStatements_append {statements rest : List Statement} (h : PlainStatements statements)
    (hrest : PlainStatements rest) : PlainStatements (statements ++ rest) := by
  rw [PlainStatements, Statement.exprsOf_append]
  exact List.forall_mem_append.mpr ⟨h, hrest⟩

theorem yields_assertion_plain (line : Nat) {es : List Expr} (h : ∀ e ∈ es, e.Plain) :
    Yields (fun statement => ∀ e ∈ statement.exprs, e.Plain) (assertion line es) := by
  unfold assertion
  split
  · exact .ok (List.forall_mem_singleton.mpr (h _ List.mem_cons_self))
  · exact .ok (List.forall_mem_singleton.mpr (h _ List.mem_cons_self))
  · exact .error _
  · exact .error _

theorem yields_assignTarget_word (scopes : Scopes) (line : Nat) {target : Term} (h : target.Named) :
    Yields (fun named => IsWord named.1.toList) (assignTarget scopes line target) := by
  unfold assignTarget
  split
  · refine .bind_any fun isMutable => ?_
    cases isMutable with
    | true => exact .ok (isWord_stripMut h)
    | false => exact .error _
  · exact .error _

theorem yields_expressionStatement_plain (scopes : Scopes) (line : Nat) {term : Term}
    (h : term.Named) :
    Yields (fun statement => ∀ e ∈ statement.exprs, e.Plain) (expressionStatement scopes line term) := by
  unfold expressionStatement
  split
  · exact (Term.yields_plainAll scopes _ h.2).bind fun es hes => yields_assertion_plain _ hes
  · rename_i op target value
    refine (yields_assignTarget_word scopes _ h.1).bind fun named hnamed => ?_
    refine (value.yields_plain scopes h.2).bind fun e he => ?_
    split
    · exact .ok (List.forall_mem_singleton.mpr he)
    · exact .ok (List.forall_mem_singleton.mpr (plain_binary (plain_identifier hnamed) he))
  · rename_i direction target
    have htarget : target.Named := h
    refine (yields_assignTarget_word scopes _ htarget).bind fun named hnamed => ?_
    exact .ok (List.forall_mem_singleton.mpr
      (plain_binary (plain_identifier hnamed) (plain_int 1)))
  · exact .error _

theorem yields_split {d : Declarator} (h : d.Named) :
    Yields (fun parts => ∀ term ∈ parts.2.2, term.Named) d.split := by
  unfold Declarator.split
  split
  · exact .ok h
  · exact .error _

theorem yields_bindDeclaration_plain (scopes : Scopes) (line : Nat) {declarators : List Declarator}
    (h : ∀ d ∈ declarators, d.Named) :
    Yields (fun bound => ∀ e ∈ bound.1.exprs, e.Plain) (bindDeclaration scopes line declarators) := by
  unfold bindDeclaration
  split
  · refine (yields_split (h _ List.mem_cons_self)).bind fun parts hparts => ?_
    obtain ⟨name, isMutable, initial⟩ := parts
    cases initial with
    | none => exact .error _
    | some term =>
        refine (term.yields_plain scopes (hparts term rfl)).bind fun e he => ?_
        exact .bind_any fun _ => .ok (List.forall_mem_singleton.mpr he)
  · exact .error _

/-- The bounds of a loop come from its head. -/
theorem yields_loopHead (line : Nat) {init : LoopInit} {test : Option LoopTest} (update : Option Term)
    (hinit : init.Named) (htest : ∀ t ∈ test, t.term.Named) :
    Yields (fun head => head.first.Named ∧ head.last.Named) (loopHead line init test update) := by
  intro head h
  have hcounts : LoopSpelling.Counts _ ⟨line, init, test, update⟩ head := LoopSpelling.head_eq_ok_iff.mp h
  cases hcounts with
  | intro hleft hupdate => exact ⟨hinit _ rfl, (htest _ rfl).2⟩

mutual

/-- A statement whose names are words gives statements with plain expressions. -/
theorem Stmt.yields_plain :
    ∀ (scopes : Scopes) (isBody : Bool) (stmt : Stmt), stmt.Named →
      Yields (fun out => PlainStatements out.1) (stmt.elaborate scopes isBody)
  | scopes, _, .declaration line declarators, h => by
      rw [Stmt.elaborate]
      exact (yields_bindDeclaration_plain scopes line h).bind fun bound hbound =>
        .ok (plainStatements_singleton hbound)
  | scopes, _, .expression line term, h => by
      rw [Stmt.elaborate]
      exact (yields_expressionStatement_plain scopes line h).bind fun statement hstatement =>
        .ok (plainStatements_singleton hstatement)
  | scopes, _, .branch _ condition consequent none, h => by
      rw [Stmt.elaborate]
      refine (condition.yields_plain scopes h.1).bind fun c hc => ?_
      refine (Stmt.yields_plain _ true consequent h.2).bind fun t ht => ?_
      exact .ok (plainStatements_singleton (List.forall_mem_cons.mpr ⟨hc, ht⟩))
  | scopes, _, .branch _ condition consequent (some alternate), h => by
      rw [Stmt.elaborate]
      refine (condition.yields_plain scopes h.1).bind fun c hc => ?_
      refine (Stmt.yields_plain _ true consequent h.2.1).bind fun t ht => ?_
      refine (Stmt.yields_plain _ true alternate h.2.2).bind fun e he => ?_
      exact .ok (plainStatements_singleton (List.forall_mem_cons.mpr
        ⟨hc, List.forall_mem_append.mpr ⟨ht, he⟩⟩))
  | scopes, _, .loop line init test update body, h => by
      rw [Stmt.elaborate]
      refine (yields_loopHead line update h.1 h.2.1).bind fun head hhead => ?_
      refine (head.first.yields_plain scopes hhead.1).bind fun first hfirst => ?_
      refine .bind_any fun inner => ?_
      refine (head.last.yields_plain inner hhead.2).bind fun last hlast => ?_
      refine (Stmt.yields_plain _ true body h.2.2.2).bind fun out hout => ?_
      exact .ok (plainStatements_singleton (List.forall_mem_cons.mpr
        ⟨hfirst, List.forall_mem_cons.mpr ⟨hlast, hout⟩⟩))
  | _, _, .whileLoop .., _ => by
      rw [Stmt.elaborate]
      exact .error _
  | _, _, .result .., _ => by
      rw [Stmt.elaborate]
      exact .error _
  | scopes, isBody, .block line statements, h => by
      rw [Stmt.elaborate]
      split
      · exact Stmt.yields_plainAll scopes statements h
      · exact .error _

theorem Stmt.yields_plainAll :
    ∀ (scopes : Scopes) (stmts : List Stmt), Stmt.NamedAll stmts →
      Yields (fun out => PlainStatements out.1) (Stmt.elaborateAll scopes stmts)
  | _, [], _ => by
      rw [Stmt.elaborateAll]
      exact .ok nofun
  | scopes, stmt :: rest, h => by
      rw [Stmt.elaborateAll]
      refine (Stmt.yields_plain scopes false stmt h.1).bind fun out hout => ?_
      exact (Stmt.yields_plainAll out.2 rest h.2).bind fun more hmore =>
        .ok (plainStatements_append hout hmore)

end

theorem Body.yields_plain (scopes : Scopes) {body : Body} (h : body.Named) :
    Yields PlainStatements (body.elaborate scopes) := by
  cases body with
  | block stmts =>
      rw [Body.elaborate]
      exact (Stmt.yields_plainAll scopes stmts h).bind fun out hout => .ok hout
  | expression term =>
      rw [Body.elaborate]
      exact (term.yields_plain scopes h).bind fun e he =>
        .ok (plainStatements_singleton (List.forall_mem_singleton.mpr he))

/-- **Scripts.** The expressions of a circuit that was read are plain. -/
theorem plainStatements_of_parse {text : String} {c : Circuit} (h : Circuit.parse text = .ok c) :
    PlainStatements c.statements := by
  rw [Circuit.parse] at h
  split at h
  · cases h
  · rename_i d hd
    obtain ⟨⟨publicParams, privateParams⟩, -, h⟩ := bind_eq_ok h
    obtain ⟨statements, hstatements, h⟩ := bind_eq_ok h
    cases h
    exact Body.yields_plain _ (named_of_parse hd) statements hstatements

end ArrowCircuit.Script

namespace ArrowCircuit

/-- Every expression that can be produced from a script is plain. -/
theorem Expr.FromScript.plain {e : Expr} (h : e.FromScript) : e.Plain := by
  obtain ⟨text, c, hparse, whole, hwhole, hpart⟩ := h
  exact (Script.plainStatements_of_parse hparse whole hwhole).of_part hpart

end ArrowCircuit
