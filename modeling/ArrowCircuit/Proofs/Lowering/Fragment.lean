import ArrowCircuit.Proofs.Lowering.Steps
import ArrowCircuit.Proofs.Script.Scoping

/-!
# The fragment that is lowered

Scripts and lowering resolve names separately: a script has a stack of blocks and splits the mark of
mutability off its names, lowering has one scope and checks a declaration before its value.  They agree
all the same: what has been read from a script is lowered exactly if it is arithmetic, and the only
other outcome is that something is not supported.
-/

namespace ArrowCircuit.Lowering

/-- Something is not supported. -/
def IsUnsupported (e : Fault) : Prop := ∃ feature, e = .unsupported feature

theorem decides_unsupported {α : Type} {p : Prop} {Q : α → Prop} {feature : String} (hp : ¬ p) :
    Decides IsUnsupported p Q (.error (.unsupported feature)) :=
  .error hp ⟨feature, rfl⟩

variable {f : PrimeField}

/-! ## Expressions -/

/-- The names bound in a state, as a scope. -/
def State.toScope (s : State) : Scope := fun name => (s.lookup? name).map (·.isMutable)

theorem toScope_congr {s s' : State} (h : s'.scope = s.scope) : s'.toScope = s.toScope := by
  funext name
  rw [State.toScope, State.lookup?, h, State.toScope, State.lookup?]

theorem isArithmetic_binary_iff {op : BinaryOp} {l r : Expr} :
    (Expr.binary op l r).IsArithmetic ↔
      (arithmetic? op).isSome ∧ l.IsArithmetic ∧ r.IsArithmetic := by
  cases op <;> simp [Expr.IsArithmetic, arithmetic?]

theorem scope_operate (a : Arithmetic) (left right : LinearForm) (target : Nat) (s : State) :
    (operate f a left right target s).scope = s.scope := by
  cases a <;> rfl

/-- An expression over names in scope is lowered exactly if it is arithmetic. -/
theorem decides_form {e : Expr} {s : State} (h : e.Closed s.toScope) :
    Decides IsUnsupported e.IsArithmetic (fun out => out.2.scope = s.scope) (form f e s) := by
  induction e, s using form.induct with
  | case1 n s b hb =>
      simp only [form, hb]
      exact .ok trivial rfl
  | case2 n s hb =>
      rw [Expr.Closed, State.toScope, hb] at h
      cases h
  | case3 z s =>
      rw [form]
      exact .ok trivial rfl
  | case4 b s =>
      rw [form]
      exact .ok trivial rfl
  | case5 t s =>
      rw [form]
      exact decides_unsupported id
  | case6 op l r s a ha target s₀ halloc ihl ihr =>
      cases halloc
      obtain ⟨hl, hr⟩ := h
      simp only [form, ha]
      have hboth : Decides IsUnsupported (l.IsArithmetic ∧ r.IsArithmetic)
          (fun out => out.2.scope = s.scope) (form f l s.alloc.2 >>= fun left => form f r left.2 >>= fun right =>
            pure (LinearForm.single s.next, operate f a left.1 right.1 s.next right.2)) := by
        refine (ihl hl).bind fun left hleft => ?_
        have hr' : r.Closed left.2.toScope := by rwa [toScope_congr hleft]
        refine (ihr left.2 hr').bind_ok fun right hright => .ok trivial ?_
        rw [scope_operate, hright, hleft]
      refine hboth.congr ?_
      rw [isArithmetic_binary_iff, ha]
      exact (and_iff_right rfl).symm
  | case7 op l r s ha =>
      simp only [form, ha]
      refine decides_unsupported fun harith => ?_
      rw [isArithmetic_binary_iff, ha] at harith
      cases harith.1
  | case8 symbol l r s =>
      rw [form]
      exact decides_unsupported id
  | case9 e s target s₀ halloc ih =>
      cases halloc
      rw [form]
      refine (ih h).bind_ok fun out hout => .ok trivial ?_
      exact hout
  | case10 e s =>
      rw [form]
      exact decides_unsupported id
  | case11 symbol e s =>
      rw [form]
      exact decides_unsupported id
  | case12 e s hname hint hbool htext hbinary hother hneg hnot hunary =>
      -- what is left has no clause of its own
      cases e with
      | index | call | array | conditional | foreign => exact decides_unsupported id
      | identifier n => exact (hname n rfl).elim
      | literal v =>
          cases v with
          | int z => exact (hint z rfl).elim
          | bool b => exact (hbool b rfl).elim
          | text t => exact (htext t rfl).elim
      | binary op l r => exact (hbinary op l r rfl).elim
      | otherBinary symbol l r => exact (hother symbol l r rfl).elim
      | unary op e =>
          cases op with
          | neg => exact (hneg e rfl).elim
          | not => exact (hnot e rfl).elim
      | otherUnary symbol e => exact (hunary symbol e rfl).elim

/-- The form of an expression, lowered behind another one. -/
theorem decides_form_of_scope_eq {e : Expr} {s s₁ : State} (h : e.Closed s.toScope)
    (hscope : s₁.scope = s.scope) :
    Decides IsUnsupported e.IsArithmetic (fun out => out.2.scope = s.scope) (form f e s₁) := by
  rw [← hscope]
  rw [← toScope_congr hscope] at h
  exact decides_form h

/-! ## Assertions -/

/-- Three forms computed one after another. -/
theorem decides_forms {l r e : Expr} {s : State} (hl : l.Closed s.toScope) (hr : r.Closed s.toScope)
    (he : e.Closed s.toScope) (emit : LinearForm → LinearForm → LinearForm → State → State)
    (hemit : ∀ a b c s, (emit a b c s).scope = s.scope) :
    Decides IsUnsupported (l.IsArithmetic ∧ r.IsArithmetic ∧ e.IsArithmetic)
      (fun s' => s'.scope = s.scope) (do
      let (a, s) ← form f l s
      let (b, s) ← form f r s
      let (c, s) ← form f e s
      return emit a b c s) := by
  refine (decides_form hl).bind fun a ha => ?_
  refine (decides_form_of_scope_eq hr ha).bind fun b hb => ?_
  refine (decides_form_of_scope_eq he hb).bind_ok fun c hc => .ok trivial ?_
  rw [hemit, hc]

theorem decides_assertEqual {l r : Expr} {s : State} (hl : l.Closed s.toScope)
    (hr : r.Closed s.toScope) :
    Decides IsUnsupported (l.IsArithmetic ∧ r.IsArithmetic) (fun s' => s'.scope = s.scope)
      (assertEqual f l r s) := by
  have hmul : ∀ {l r : Expr}, (Expr.binary .mul l r).IsArithmetic ↔
      l.IsArithmetic ∧ r.IsArithmetic := by simp [Expr.IsArithmetic]
  have hsum : ∀ {isSum : Bool} {l r : Expr}, (Expr.binary (sumOp isSum) l r).IsArithmetic ↔
      l.IsArithmetic ∧ r.IsArithmetic := by
    intro isSum l r
    cases isSum <;> simp [Expr.IsArithmetic, sumOp]
  unfold assertEqual
  split
  -- a product or a sum on either side, its operands lowered before the other side
  · rename_i a b h
    rw [eq_of_product? h] at hl ⊢
    refine (decides_forms hl.1 hl.2 hr (fun a b c s => s.emit f a b c) fun _ _ _ _ => rfl).congr ?_
    rw [hmul, and_assoc]
  · rename_i a b _ h
    rw [eq_of_product? h] at hr ⊢
    refine (decides_forms hr.1 hr.2 hl (fun a b c s => s.emit f a b c) fun _ _ _ _ => rfl).congr ?_
    rw [hmul, ← and_assoc, and_comm]
  · rename_i isSum a b _ _ h
    rw [eq_of_sum? h] at hl ⊢
    refine (decides_forms hl.1 hl.2 hr (fun a b c s => s.emit f (combine f isSum a b) .one c)
      fun _ _ _ _ => rfl).congr ?_
    rw [hsum, and_assoc]
  · rename_i isSum a b _ _ _ h
    rw [eq_of_sum? h] at hr ⊢
    refine (decides_forms hr.1 hr.2 hl (fun a b c s => s.emit f (combine f isSum a b) .one c)
      fun _ _ _ _ => rfl).congr ?_
    rw [hsum, ← and_assoc, and_comm]
  · refine (decides_form hl).bind fun a ha => ?_
    exact (decides_form_of_scope_eq hr ha).bind_ok fun b hb => .ok trivial hb

theorem decides_materialize {e : Expr} {s : State} (h : e.Closed s.toScope) :
    Decides IsUnsupported e.IsArithmetic (fun out => out.2.scope = s.scope) (materialize f e s) := by
  refine (decides_form h).bind_ok fun out hout => ?_
  dsimp only
  split
  · split
    · exact .ok trivial hout
    · exact .ok trivial hout
  · exact .ok trivial hout

theorem decides_assertOrder (settings : Settings) {a b : Expr} {s : State} (ha : a.Closed s.toScope)
    (hb : b.Closed s.toScope) (offset : Int) :
    Decides IsUnsupported (a.IsArithmetic ∧ b.IsArithmetic) (fun s' => s'.scope = s.scope)
      (assertOrder settings a b offset s) := by
  refine (decides_materialize ha).bind fun left hleft => ?_
  rw [← toScope_congr hleft] at hb
  refine (decides_materialize hb).bind_ok fun right hright => .ok trivial ?_
  exact hright.trans hleft

/-- An assertion over names in scope is lowered exactly if it is of a condition. -/
theorem decides_lowerAssert (settings : Settings) {e : Expr} {s : State} (h : e.Closed s.toScope) :
    Decides IsUnsupported e.IsCondition (fun s' => s'.scope = s.scope) (lowerAssert settings e s) := by
  cases e with
  | binary op l r =>
      obtain ⟨hl, hr⟩ := h
      have hcompared : ∀ {op : BinaryOp}, op ∈ [BinaryOp.eq, .ge, .gt, .le, .lt] →
          (l.IsArithmetic ∧ r.IsArithmetic ↔ (Expr.binary op l r).IsCondition) :=
        fun hop => (and_iff_right hop).symm
      cases op with
      | eq => exact (decides_assertEqual hl hr).congr (hcompared (by decide))
      | ge | gt => exact (decides_assertOrder settings hl hr _).congr (hcompared (by decide))
      | le | lt =>
          exact (decides_assertOrder settings hr hl _).congr (and_comm.trans (hcompared (by decide)))
      | add | sub | mul | div | mod | ne | and | or =>
          exact decides_unsupported fun hc => absurd hc.1 (by decide)
  | otherBinary symbol l r => exact decides_unsupported id
  | identifier | literal | unary | otherUnary | index | call | array | conditional | foreign =>
      exact (decides_form h).bind_ok fun out hout => .ok trivial hout

/-! ## Statements -/

theorem decides_assignNew {e : Expr} {s : State} (h : e.Closed s.toScope) :
    Decides IsUnsupported e.IsArithmetic (fun out => out.2.scope = s.scope) (assignNew f e s) := by
  have halloc : s.alloc.2.scope = s.scope := rfl
  unfold assignNew
  dsimp only
  split
  · rename_i op l r
    split
    · rename_i a ha
      have hboth : Decides IsUnsupported (l.IsArithmetic ∧ r.IsArithmetic)
          (fun out => out.2.scope = s.scope) (form f l s.alloc.2 >>= fun left => form f r left.2 >>= fun right =>
            pure (s.next, operate f a left.1 right.1 s.next right.2)) := by
        refine (decides_form_of_scope_eq h.1 halloc).bind fun left hleft => ?_
        refine (decides_form_of_scope_eq h.2 hleft).bind_ok fun right hright => .ok trivial ?_
        rw [scope_operate, hright]
      refine hboth.congr ?_
      rw [isArithmetic_binary_iff, ha]
      exact (and_iff_right rfl).symm
    · exact (decides_form_of_scope_eq h halloc).bind_ok fun out hout => .ok trivial hout
  · exact (decides_form_of_scope_eq h halloc).bind_ok fun out hout => .ok trivial hout

theorem toScope_bindName (s : State) (name : String) (b : Binding) :
    (s.bindName name b).toScope = Function.update s.toScope name (some b.isMutable) := by
  funext other
  rw [State.toScope, State.lookup?, State.bindName, List.lookup_cons, Function.update_apply]
  by_cases h : other = name
  · rw [if_pos h, beq_iff_eq.mpr h]
    rfl
  · rw [if_neg h, beq_eq_false_iff_ne.mpr h]
    rfl

/-- **Steps.** A scoped statement is lowered exactly if it is arithmetic, and then binds the name that
it declares. -/
theorem decides_lowerStatement (settings : Settings) {statement : Statement} {s : State}
    (h : statement.Scoped s.toScope) :
    Decides IsUnsupported statement.IsArithmetic (fun s' => s'.toScope = statement.extend s.toScope)
      (lowerStatement settings statement s) := by
  cases statement with
  | assert condition message =>
      rcases decides_lowerAssert settings h with ⟨hc, s', hs', hscope⟩ | hc
      · exact .inl ⟨hc, s', hs', toScope_congr hscope⟩
      · exact .inr hc
  | declare name isMutable initial =>
      obtain ⟨hnew, hclosed⟩ := h
      have hnone : s.lookup? name = none := Option.map_eq_none_iff.mp hnew
      simp only [lowerStatement, hnone]
      refine (decides_assignNew hclosed).bind_ok fun out hout => .ok trivial ?_
      rw [toScope_bindName, toScope_congr hout]
      rfl
  | assign target value isMutable =>
      obtain ⟨hmutable, hclosed⟩ := h
      obtain ⟨b, hb, hflag⟩ := Option.map_eq_some_iff.mp hmutable
      simp only [lowerStatement, hb, hflag, if_true]
      refine (decides_assignNew hclosed).bind_ok fun out hout => .ok trivial ?_
      -- the target was mutable before and is so again
      rw [toScope_bindName, toScope_congr hout, ← hmutable, Function.update_eq_self]
      rfl
  | branch condition consequent alternate => exact decides_unsupported id
  | loop counter first last inclusive body => exact decides_unsupported id
  | foreign node => exact decides_unsupported id

/-- **Runs.** Scoped statements are lowered exactly if they are all arithmetic. -/
theorem decides_lowerStatements (settings : Settings) {statements : List Statement} {s : State}
    (h : ScopedAll s.toScope statements) :
    Decides IsUnsupported (∀ statement ∈ statements, statement.IsArithmetic) (fun _ => True)
      (lowerStatements settings statements s) := by
  induction statements generalizing s with
  | nil => exact .ok nofun trivial
  | cons statement rest ih =>
      obtain ⟨hscoped, hrest⟩ := h
      have hstep := decides_lowerStatement settings hscoped
      refine (hstep.bind fun s₁ hs₁ => ih ?_).congr List.forall_mem_cons.symm
      rwa [hs₁]

/-! ## Circuits -/

/-- Where all names have one mutability, a name has it if it is there. -/
theorem lookup_map_eq {α : Type} {entries : List (String × α)} {g : α → Bool} {b : Bool}
    (h : ∀ entry ∈ entries, g entry.2 = b) (name : String) :
    (entries.lookup name).map g = if name ∈ entries.map (·.1) then some b else none := by
  induction entries with
  | nil => rfl
  | cons entry rest ih =>
      obtain ⟨hentry, hrest⟩ := List.forall_mem_cons.mp h
      rw [List.lookup_cons, List.map_cons]
      by_cases hname : name = entry.1
      · rw [beq_iff_eq.mpr hname, if_pos (List.mem_cons.mpr (.inl hname)), ← hentry]
        rfl
      · rw [beq_eq_false_iff_ne.mpr hname]
        simp only [List.mem_cons, hname, false_or]
        exact ih hrest

/-- Before the statements of a circuit, lowering and scripts have the same names in scope. -/
theorem toScope_paramState (c : Circuit) :
    (paramState c).toScope = Script.Scopes.scope [Script.paramBlock c] := by
  funext name
  have hstate : ∀ entry ∈ (paramState c).scope, entry.2.isMutable = false := by
    rw [paramState_eq]
    rintro ⟨n, b⟩ hmem
    obtain ⟨i, -, rfl⟩ := List.mem_map.mp (List.of_mem_zip (List.mem_reverse.mp hmem)).2
    rfl
  have hblock : ∀ entry ∈ Script.paramBlock c, id entry.2 = false := by
    rintro entry hmem
    obtain ⟨p, -, rfl⟩ := List.mem_map.mp hmem
    rfl
  have hnames : name ∈ (paramState c).scope.map (·.1) ↔
      name ∈ (Script.paramBlock c).map (·.1) := by
    rw [paramState_eq, List.map_reverse, List.mem_reverse, List.map_fst_zip (by simp),
      Circuit.paramNames, Script.paramBlock, List.map_map, List.map_append, List.mem_append,
      List.mem_append, or_comm]
    rfl
  rw [Script.Scopes.scope_singleton, State.toScope, State.lookup?, lookup_map_eq hstate,
    ← Option.map_id_apply (x := List.lookup name _), lookup_map_eq hblock]
  simp only [hnames]

theorem decides_lower {text : String} {c : Circuit} (h : Circuit.parse text = .ok c)
    (settings : Settings) :
    Decides IsUnsupported c.IsArithmetic (fun _ => True) (c.lower settings) := by
  have hscoped : ScopedAll (paramState c).toScope c.statements := by
    rw [toScope_paramState]
    exact Script.scopedAll_of_parse h
  rw [lower_eq]
  exact (decides_lowerStatements settings hscoped).bind_ok fun s _ => .ok trivial trivial

/-- **The fragment.** A circuit that was read from a script is lowered exactly if its statements are
assertions of conditions, declarations and assignments of arithmetic values; otherwise something is
not supported, and no fault of scope ever arises. -/
theorem lower_parsed_iff (text : String) (c : Circuit) (h : Circuit.parse text = .ok c)
    (settings : Settings) :
    ((∃ sys, c.lower settings = .ok sys) ↔ c.IsArithmetic) ∧
      ∀ e, c.lower settings = .error e → ∃ feature, e = .unsupported feature :=
  ⟨(decides_lower h settings).exists_ok_iff, (decides_lower h settings).raises⟩

/-- A script with a mutable variable that is assigned again. -/
def marginScript : String := "([a], [b]) => { let mut_x = b - a; x *= 2; assert(x >= 0); }"

/-- What the grammar makes of `marginScript`. -/
def marginDefinition : Script.Definition where
  parameters := .listed 1 [.pattern 1 [(1, "a")], .pattern 1 [(1, "b")]]
  body := .block [
    .declaration 1 [⟨1, .name "mut_x", some (.binary 1 .sub (.ident 1 "b") (.ident 1 "a"))⟩],
    .expression 1 (.assign 1 .mul (.ident 1 "x") (.number 1 ['2'])),
    .expression 1 (.call 1 (.ident 1 "assert") [.binary 1 .ge (.ident 1 "x") (.number 1 ['0'])])]

/-- The circuit of `marginScript`. -/
def marginCircuit : Circuit where
  publicParams := [⟨"a", 0⟩]
  privateParams := [⟨"b", 0⟩]
  statements := [
    .declare "x" true (.binary .sub (.identifier "b") (.identifier "a")),
    .assign "x" (.binary .mul (.identifier "x") (.literal (.int 2))) false,
    .assert (.binary .ge (.identifier "x") (.literal (.int 0))) none]

/-- A script with a branch. -/
def branchScript : String := "([a], [b]) => { if (b) { assert(a); } }"

/-- What the grammar makes of `branchScript`. -/
def branchDefinition : Script.Definition where
  parameters := .listed 1 [.pattern 1 [(1, "a")], .pattern 1 [(1, "b")]]
  body := .block [.branch 1 (.ident 1 "b")
    (.block 1 [.expression 1 (.call 1 (.ident 1 "assert") [.ident 1 "a"])]) none]

/-- The circuit of `branchScript`. -/
def branchCircuit : Circuit where
  publicParams := [⟨"a", 0⟩]
  privateParams := [⟨"b", 0⟩]
  statements := [.branch (.identifier "b") [.assert (.identifier "a") none] none]

theorem lower_parsed_iff_margin :
    Circuit.parse marginScript = .ok marginCircuit ∧ (∃ sys, marginCircuit.lower {} = .ok sys) ∧
      Circuit.parse branchScript = .ok branchCircuit ∧
      ¬ ∃ sys, branchCircuit.lower {} = .ok sys := by
  have hmargin : Circuit.parse marginScript = .ok marginCircuit := by
    have hdefinition : Script.Definition.parse marginScript.toList = .ok marginDefinition := by cbv
    rw [Circuit.parse, hdefinition]
    rfl
  have hbranch : Circuit.parse branchScript = .ok branchCircuit := by
    have hdefinition : Script.Definition.parse branchScript.toList = .ok branchDefinition := by cbv
    rw [Circuit.parse, hdefinition]
    rfl
  refine ⟨hmargin, ?_, hbranch, ?_⟩
  · exact (lower_parsed_iff _ _ hmargin {}).1.mpr (by decide)
  · exact (lower_parsed_iff _ _ hbranch {}).1.not.mpr (by decide)

end ArrowCircuit.Lowering
