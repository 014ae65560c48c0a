import ArrowCircuit.Proofs.Script.Reads

/-!
# Binding in circuits

Every place in a circuit has layers around it, the innermost first: one for each block that it lies in,
with the statements before it, and one for the variable of each loop that it lies in.  A name is bound
at a place if one of these layers binds it.  What an earlier branch or loop declares inside is not
among the statements of any layer, so it is not bound there.

In a circuit that was read from a script every name is bound where it is read, a block declares no name
twice, and what is assigned has been declared as mutable by the innermost layer that binds it.
-/

namespace ArrowCircuit

/-! ## Layers and places -/

/-- What one block contributes at a place: the names that it has from its start, which are those of the
parameters or of the variable of a loop, and its statements before the place. -/
structure Layer where
  names : List String
  before : List Statement

namespace Layer

/-- The name is there from the start, or a statement before the place declares it. -/
def Binds (layer : Layer) (name : String) : Prop :=
  name ∈ layer.names ∨ ∃ isMutable initial, .declare name isMutable initial ∈ layer.before

/-- The name is declared by a statement before the place, and only as mutable. -/
def Assignable (layer : Layer) (name : String) : Prop :=
  name ∉ layer.names ∧ (∃ initial, .declare name true initial ∈ layer.before) ∧
    ∀ isMutable initial, .declare name isMutable initial ∈ layer.before → isMutable = true

/-- The layer of a loop around the bound and the body. -/
def ofCounter (counter : String) : Layer := ⟨[counter], []⟩

/-- The layer some statements further on. -/
def after (layer : Layer) (statements : List Statement) : Layer :=
  ⟨layer.names, layer.before ++ statements⟩

end Layer

/-- The statements of a circuit, at any depth, with the layers around them. -/
inductive Circuit.Place (c : Circuit) : List Layer → Statement → Prop
  | top {before rest : List Statement} {statement : Statement}
      (h : c.statements = before ++ statement :: rest) :
      Place c [⟨c.paramNames, before⟩] statement
  | consequent {layers : List Layer} {condition : Expr} {alternate : Option (List Statement)}
      {before rest : List Statement} {statement : Statement}
      (h : Place c layers (.branch condition (before ++ statement :: rest) alternate)) :
      Place c (⟨[], before⟩ :: layers) statement
  | alternate {layers : List Layer} {condition : Expr} {consequent : List Statement}
      {before rest : List Statement} {statement : Statement}
      (h : Place c layers (.branch condition consequent (some (before ++ statement :: rest)))) :
      Place c (⟨[], before⟩ :: layers) statement
  | body {layers : List Layer} {counter : String} {first last : Expr} {inclusive : Bool}
      {before rest : List Statement} {statement : Statement}
      (h : Place c layers (.loop counter first last inclusive (before ++ statement :: rest))) :
      Place c (⟨[], before⟩ :: .ofCounter counter :: layers) statement

/-- The expressions of a circuit with the layers around them.  Of a loop, the bound lies inside the
layer of the loop variable and the first value does not. -/
inductive Circuit.Stands (c : Circuit) : List Layer → Expr → Prop
  | assert {layers : List Layer} {condition : Expr} {message : Option Text}
      (h : c.Place layers (.assert condition message)) : Stands c layers condition
  | declare {layers : List Layer} {name : String} {isMutable : Bool} {initial : Expr}
      (h : c.Place layers (.declare name isMutable initial)) : Stands c layers initial
  | assign {layers : List Layer} {target : String} {value : Expr} {isMutable : Bool}
      (h : c.Place layers (.assign target value isMutable)) : Stands c layers value
  | condition {layers : List Layer} {condition : Expr} {consequent : List Statement}
      {alternate : Option (List Statement)}
      (h : c.Place layers (.branch condition consequent alternate)) : Stands c layers condition
  | first {layers : List Layer} {counter : String} {first last : Expr} {inclusive : Bool}
      {body : List Statement} (h : c.Place layers (.loop counter first last inclusive body)) :
      Stands c layers first
  | last {layers : List Layer} {counter : String} {first last : Expr} {inclusive : Bool}
      {body : List Statement} (h : c.Place layers (.loop counter first last inclusive body)) :
      Stands c (.ofCounter counter :: layers) last

mutual

/-- What a statement holds at any depth stands somewhere. -/
theorem Circuit.exists_stands (c : Circuit) :
    ∀ (statement : Statement) (layers : List Layer), c.Place layers statement →
      ∀ e ∈ statement.exprs, ∃ layers, c.Stands layers e
  | .assert condition _, layers, h => List.forall_mem_singleton.mpr ⟨layers, .assert h⟩
  | .declare _ _ initial, layers, h => List.forall_mem_singleton.mpr ⟨layers, .declare h⟩
  | .assign _ value _, layers, h => List.forall_mem_singleton.mpr ⟨layers, .assign h⟩
  | .branch condition consequent none, layers, h => by
      rw [Statement.exprs]
      refine List.forall_mem_cons.mpr ⟨⟨layers, .condition h⟩, ?_⟩
      refine c.exists_standsAll consequent fun before statement rest heq => ?_
      subst heq
      exact ⟨_, .consequent h⟩
  | .branch condition consequent (some alternate), layers, h => by
      rw [Statement.exprs]
      refine List.forall_mem_cons.mpr ⟨⟨layers, .condition h⟩, List.forall_mem_append.mpr ⟨?_, ?_⟩⟩
      · refine c.exists_standsAll consequent fun before statement rest heq => ?_
        subst heq
        exact ⟨_, .consequent h⟩
      · refine c.exists_standsAll alternate fun before statement rest heq => ?_
        subst heq
        exact ⟨_, .alternate h⟩
  | .loop counter first last _ body, layers, h => by
      rw [Statement.exprs]
      refine List.forall_mem_cons.mpr ⟨⟨layers, .first h⟩, List.forall_mem_cons.mpr ⟨⟨_, .last h⟩, ?_⟩⟩
      refine c.exists_standsAll body fun before statement rest heq => ?_
      subst heq
      exact ⟨_, .body h⟩
  | .foreign _, _, _ => List.forall_mem_nil _

theorem Circuit.exists_standsAll (c : Circuit) :
    ∀ statements : List Statement,
      (∀ before statement rest, statements = before ++ statement :: rest →
        ∃ layers, c.Place layers statement) →
      ∀ e ∈ Statement.exprsOf statements, ∃ layers, c.Stands layers e
  | [], _ => List.forall_mem_nil _
  | statement :: rest, h => by
      obtain ⟨layers, hplace⟩ := h [] statement rest rfl
      rw [Statement.exprsOf]
      refine List.forall_mem_append.mpr ⟨c.exists_stands statement layers hplace, ?_⟩
      exact c.exists_standsAll rest fun before other others heq =>
        h (statement :: before) other others (by rw [heq, List.cons_append])

end

/-! ## Statements one after another -/

/-- The variables that an expression reads are bound. -/
def Expr.BoundIn (layers : List Layer) (e : Expr) : Prop :=
  ∀ name ∈ e.reads, ∃ layer ∈ layers, layer.Binds name

theorem Expr.boundIn_identifier {layers : List Layer} {name : String} :
    (Expr.identifier name).BoundIn layers ↔ ∃ layer ∈ layers, layer.Binds name := by
  rw [Expr.BoundIn, Expr.reads, List.forall_mem_singleton]

theorem Expr.boundIn_binary {layers : List Layer} {op : BinaryOp} {l r : Expr} :
    (Expr.binary op l r).BoundIn layers ↔ l.BoundIn layers ∧ r.BoundIn layers := by
  rw [Expr.BoundIn, Expr.reads, List.forall_mem_append]
  rfl

/-- The innermost layer that binds the name declares it as mutable. -/
def AssignableIn (layers : List Layer) (name : String) : Prop :=
  ∃ inner layer outer, layers = inner ++ layer :: outer ∧ (∀ l ∈ inner, ¬ l.Binds name) ∧
    layer.Assignable name

mutual

/-- A statement whose names are bound in the layers around it, at any depth. -/
def Statement.BoundIn (layers : List Layer) : Statement → Prop
  | .assert condition _ => condition.BoundIn layers
  | .declare name _ initial => initial.BoundIn layers ∧ ∀ layer ∈ layers.head?, ¬ layer.Binds name
  | .assign target value _ => value.BoundIn layers ∧ AssignableIn layers target
  | .branch condition consequent none =>
    condition.BoundIn layers ∧ Statement.BoundAllIn ⟨[], []⟩ layers consequent
  | .branch condition consequent (some alternate) =>
    condition.BoundIn layers ∧ Statement.BoundAllIn ⟨[], []⟩ layers consequent ∧
      Statement.BoundAllIn ⟨[], []⟩ layers alternate
  | .loop counter first last _ body =>
    first.BoundIn layers ∧ last.BoundIn (.ofCounter counter :: layers) ∧
      Statement.BoundAllIn ⟨[], []⟩ (.ofCounter counter :: layers) body
  | .foreign _ => True

/-- The statements of a block, each of which adds to the layer of the block. -/
def Statement.BoundAllIn (layer : Layer) (outer : List Layer) : List Statement → Prop
  | [] => True
  | statement :: rest =>
    statement.BoundIn (layer :: outer) ∧ Statement.BoundAllIn (layer.after [statement]) outer rest

end

namespace Layer

variable (layer : Layer)

@[simp] theorem after_nil : layer.after [] = layer := by
  rw [after, List.append_nil]

@[simp] theorem after_after (statements rest : List Statement) :
    (layer.after statements).after rest = layer.after (statements ++ rest) := by
  rw [after, after, after, List.append_assoc]

end Layer

theorem Statement.boundAllIn_append {layer : Layer} {outer : List Layer} {statements rest : List Statement} :
    Statement.BoundAllIn layer outer (statements ++ rest) ↔
      Statement.BoundAllIn layer outer statements ∧
        Statement.BoundAllIn (layer.after statements) outer rest := by
  induction statements generalizing layer with
  | nil => rw [List.nil_append, Layer.after_nil, BoundAllIn, true_and]
  | cons statement statements ih =>
      rw [List.cons_append, BoundAllIn, BoundAllIn, ih, Layer.after_after, and_assoc]
      rfl

/-- A statement of a block sees those before it. -/
theorem Statement.boundIn_of_boundAllIn {layer : Layer} {outer : List Layer}
    {before rest : List Statement} {statement : Statement}
    (h : Statement.BoundAllIn layer outer (before ++ statement :: rest)) :
    statement.BoundIn (layer.after before :: outer) :=
  (Statement.boundAllIn_append.mp h).2.1

/-- **Places.** In a circuit whose blocks are bound from the top on, so is every statement at any
depth. -/
theorem Circuit.Place.boundIn {c : Circuit}
    (hc : Statement.BoundAllIn ⟨c.paramNames, []⟩ [] c.statements) {layers : List Layer}
    {statement : Statement} (h : c.Place layers statement) : statement.BoundIn layers := by
  induction h with
  | top h =>
      rw [h] at hc
      exact Statement.boundIn_of_boundAllIn hc
  | @consequent _ _ alternate _ _ _ _ ih =>
      cases alternate with
      | none => exact Statement.boundIn_of_boundAllIn ih.2
      | some _ => exact Statement.boundIn_of_boundAllIn ih.2.1
  | alternate _ ih => exact Statement.boundIn_of_boundAllIn ih.2.2
  | body _ ih => exact Statement.boundIn_of_boundAllIn ih.2.2

theorem Circuit.Stands.boundIn {c : Circuit}
    (hc : Statement.BoundAllIn ⟨c.paramNames, []⟩ [] c.statements) {layers : List Layer} {e : Expr}
    (h : c.Stands layers e) : e.BoundIn layers := by
  cases h with
  | assert h => exact h.boundIn hc
  | declare h => exact (h.boundIn hc).1
  | assign h => exact (h.boundIn hc).1
  | @condition _ _ _ alternate h =>
      have hbranch := h.boundIn hc
      cases alternate with
      | none => exact hbranch.1
      | some _ => exact hbranch.1
  | first h => exact (h.boundIn hc).1
  | last h => exact (h.boundIn hc).2.1

namespace Script

/-! ## Blocks and layers -/

/-- A block of the scopes that knows what a layer binds, and with `true` only what may be assigned. -/
structure Models (layer : Layer) (block : Block) : Prop where
  binds : ∀ name, (List.lookup name block).isSome ↔ layer.Binds name
  assignable : ∀ name, List.lookup name block = some true → layer.Assignable name

section

variable {layer : Layer} {block : Block} {outer : List Layer} {scopes : Scopes}

theorem models_empty : Models ⟨[], []⟩ [] where
  binds name := by simp [Layer.Binds]
  assignable name h := by cases h

/-- Names that are there from the start are no variables to be assigned. -/
theorem models_ofNames {names : List String}
    (h : ∀ entry, entry ∈ block ↔ entry.1 ∈ names ∧ entry.2 = false) : Models ⟨names, []⟩ block where
  binds name := by
    rw [List.lookup_isSome_iff]
    constructor
    · rintro ⟨entry, hentry, hname⟩
      rw [eq_of_beq hname]
      exact .inl ((h entry).mp hentry).1
    · rintro (hname | ⟨_, _, hmem⟩)
      · exact ⟨(name, false), (h (name, false)).mpr ⟨hname, rfl⟩, beq_self_eq_true name⟩
      · exact absurd hmem List.not_mem_nil
  assignable name hname := by
    obtain ⟨before, after, hblock, -⟩ := List.lookup_eq_some_iff.mp hname
    have hmem : (name, true) ∈ block := hblock ▸ List.mem_append_right _ List.mem_cons_self
    exact absurd ((h _).mp hmem).2.symm Bool.false_ne_true

/-- A statement that declares nothing changes no layer. -/
theorem Models.after (h : Models layer block) {statement : Statement}
    (hstatement : ∀ name isMutable initial, statement ≠ .declare name isMutable initial) :
    Models (layer.after [statement]) block := by
  have hmem : ∀ name isMutable initial,
      .declare name isMutable initial ∈ (layer.after [statement]).before ↔
        .declare name isMutable initial ∈ layer.before := by
    intro name isMutable initial
    rw [Layer.after, List.mem_append, List.mem_singleton,
      or_iff_left fun heq => hstatement name isMutable initial heq.symm]
  refine ⟨fun name => ?_, fun name hname => ?_⟩
  · simp only [h.binds, Layer.Binds, hmem]
    rfl
  · have hassignable := h.assignable name hname
    simp only [Layer.Assignable, hmem]
    exact hassignable

/-- A declaration adds its name. -/
theorem Models.declare (h : Models layer block) {name : String} (hfree : ¬ layer.Binds name)
    (isMutable : Bool) (initial : Expr) :
    Models (layer.after [.declare name isMutable initial]) ((name, isMutable) :: block) := by
  have hmem : ∀ other otherMutable value, .declare other otherMutable value ∈
      (layer.after [.declare name isMutable initial]).before ↔
        .declare other otherMutable value ∈ layer.before ∨
          other = name ∧ otherMutable = isMutable ∧ value = initial := by
    intro other otherMutable value
    rw [Layer.after, List.mem_append, List.mem_singleton, Statement.declare.injEq]
  -- the declared name stands in front of the block, and all others are found as before
  refine ⟨fun other => ?_, fun other hother => ?_⟩
  · simp only [Layer.Binds, hmem]
    rw [List.lookup_cons]
    by_cases heq : other = name
    · rw [beq_iff_eq.mpr heq]
      exact iff_of_true rfl (.inr ⟨isMutable, initial, .inr ⟨heq, rfl, rfl⟩⟩)
    · rw [beq_eq_false_iff_ne.mpr heq]
      simp only [heq, false_and, or_false]
      exact h.binds other
  · rw [List.lookup_cons] at hother
    simp only [Layer.Assignable, hmem]
    by_cases heq : other = name
    · rw [beq_iff_eq.mpr heq] at hother
      cases hother
      subst heq
      refine ⟨fun hname => hfree (.inl hname), ⟨initial, .inr ⟨rfl, rfl, rfl⟩⟩, ?_⟩
      rintro otherMutable value (hbefore | ⟨-, rfl, -⟩)
      · exact absurd (.inr ⟨otherMutable, value, hbefore⟩) hfree
      · rfl
    · rw [beq_eq_false_iff_ne.mpr heq] at hother
      simp only [heq, false_and, or_false]
      exact h.assignable other hother

theorem exists_binds_of_lookup? (h : List.Forall₂ Models outer scopes) {name : String}
    (hname : (scopes.lookup? name).isSome) : ∃ layer ∈ outer, layer.Binds name := by
  induction h with
  | nil => cases hname
  | @cons layer block outer scopes hmodels _ ih =>
      cases hlookup : List.lookup name block with
      | some isMutable =>
          exact ⟨layer, List.mem_cons_self, (hmodels.binds name).mp (by rw [hlookup, Option.isSome_some])⟩
      | none =>
          rw [Scopes.lookup?, hlookup] at hname
          obtain ⟨other, hmem, hbinds⟩ := ih hname
          exact ⟨other, List.mem_cons_of_mem layer hmem, hbinds⟩

theorem assignableIn_of_lookup? (h : List.Forall₂ Models outer scopes) {name : String}
    (hname : scopes.lookup? name = some true) : AssignableIn outer name := by
  -- the first block that has the name decides, and the layers before it do not bind it
  induction h with
  | nil => cases hname
  | @cons layer block outer scopes hmodels _ ih =>
      cases hlookup : List.lookup name block with
      | some isMutable =>
          rw [Scopes.lookup?, hlookup] at hname
          cases hname
          exact ⟨[], layer, outer, rfl, List.forall_mem_nil _, hmodels.assignable name hlookup⟩
      | none =>
          rw [Scopes.lookup?, hlookup] at hname
          obtain ⟨inner, found, rest, rfl, hinner, hfound⟩ := ih hname
          have hfree : ¬ layer.Binds name := by
            rw [← hmodels.binds, hlookup]
            exact Bool.false_ne_true
          exact ⟨layer :: inner, found, rest, rfl, List.forall_mem_cons.mpr ⟨hfree, hinner⟩, hfound⟩

/-! ## Elaboration -/

theorem boundIn_of_reads (h : List.Forall₂ Models outer scopes) {spelled names : List String}
    (hnames : List.Forall₂ (Names scopes) spelled names) :
    ∀ name ∈ names, ∃ layer ∈ outer, layer.Binds name := by
  have hvisible := (List.forall₂_and_left names spelled).mp
    (hnames.flip.imp fun _ _ hname => ⟨hname.2, hname.1⟩)
  exact fun name hname => exists_binds_of_lookup? h (hvisible.1 name hname)

theorem Term.yields_boundIn (h : List.Forall₂ Models outer scopes) (term : Term) :
    Yields (Expr.BoundIn outer) (term.elaborate scopes) :=
  fun e he => boundIn_of_reads h (term.yields_reads scopes e he)

/-- What an elaborated part leaves behind: statements that are bound in the layers around it, and the
block with what they declare. -/
def Places (layer : Layer) (outer : List Layer) (scopes : Scopes) (statements : List Statement)
    (scopes' : Scopes) : Prop :=
  Statement.BoundAllIn layer outer statements ∧
    ∃ block, scopes' = block :: scopes ∧ Models (layer.after statements) block

/-- A statement that declares nothing. -/
theorem places_singleton (hlayer : Models layer block) {statement : Statement}
    (hbound : statement.BoundIn (layer :: outer))
    (hstatement : ∀ name isMutable initial, statement ≠ .declare name isMutable initial) :
    Places layer outer scopes [statement] (block :: scopes) :=
  ⟨⟨hbound, trivial⟩, block, rfl, hlayer.after hstatement⟩

theorem yields_assertion_boundIn (line : Nat) {es : List Expr}
    (h : ∀ name ∈ Expr.readsAll es, ∃ layer ∈ outer, layer.Binds name) :
    Yields (fun statement => ∃ condition message, statement = .assert condition message ∧
      condition.BoundIn outer) (assertion line es) := by
  unfold assertion
  split
  · exact .ok ⟨_, _, rfl, fun name hname => h name (List.mem_append_left _ hname)⟩
  · exact .ok ⟨_, _, rfl, fun name hname => h name (List.mem_append_left _ hname)⟩
  · exact .error _
  · exact .error _

theorem yields_expressionStatement_boundIn (h : List.Forall₂ Models outer scopes) (line : Nat)
    (term : Term) :
    Yields (fun statement => statement.BoundIn outer ∧
        ∀ name isMutable initial, statement ≠ .declare name isMutable initial)
      (expressionStatement scopes line term) := by
  have htarget : ∀ line target, Yields (fun named => AssignableIn outer named.1 ∧
      ∃ layer ∈ outer, layer.Binds named.1) (assignTarget scopes line target) := by
    intro line target named hnamed
    have hlookup : scopes.lookup? named.1 = some true :=
      yields_assignTarget scopes line target named hnamed
    exact ⟨assignableIn_of_lookup? h hlookup,
      exists_binds_of_lookup? h (by rw [hlookup, Option.isSome_some])⟩
  unfold expressionStatement
  split
  · rename_i arguments
    refine (Term.yields_readsAll scopes arguments).bind fun es hes statement hstatement => ?_
    obtain ⟨condition, message, rfl, hcondition⟩ :=
      yields_assertion_boundIn _ (boundIn_of_reads h hes) statement hstatement
    exact ⟨hcondition, fun _ _ _ => Statement.noConfusion⟩
  · rename_i op target value
    refine (htarget _ target).bind fun named hnamed => ?_
    refine (value.yields_boundIn h).bind fun e he => ?_
    split
    · exact .ok ⟨⟨he, hnamed.1⟩, fun _ _ _ => Statement.noConfusion⟩
    · exact .ok ⟨⟨Expr.boundIn_binary.mpr ⟨Expr.boundIn_identifier.mpr hnamed.2, he⟩, hnamed.1⟩,
        fun _ _ _ => Statement.noConfusion⟩
  · rename_i direction target
    refine (htarget _ target).bind fun named hnamed => ?_
    exact .ok ⟨⟨Expr.boundIn_binary.mpr ⟨Expr.boundIn_identifier.mpr hnamed.2,
      fun _ hname => absurd hname List.not_mem_nil⟩, hnamed.1⟩, fun _ _ _ => Statement.noConfusion⟩
  · exact .error _

/-- A name that is declared is new to the innermost layer. -/
theorem yields_bindName_models (hlayer : Models layer block) (line : Nat) (name : String)
    (isMutable : Bool) (initial : Expr) :
    Yields (fun scopes' => ¬ layer.Binds name ∧ ∃ block', scopes' = block' :: scopes ∧
        Models (layer.after [.declare name isMutable initial]) block')
      (bindName (block :: scopes) line name isMutable) := by
  rw [bindName, Scopes.declare?]
  split
  · rename_i h
    split at h
    · cases h
    · rename_i hnew
      cases h
      rw [hlayer.binds] at hnew
      exact .ok ⟨hnew, _, rfl, hlayer.declare hnew isMutable initial⟩
  · exact .error _

theorem yields_bindDeclaration_places (hlayer : Models layer block)
    (houter : List.Forall₂ Models outer scopes) (line : Nat) (declarators : List Declarator) :
    Yields (fun bound => Places layer outer scopes [bound.1] bound.2)
      (bindDeclaration (block :: scopes) line declarators) := by
  unfold bindDeclaration
  split
  · refine .bind_any fun parts => ?_
    obtain ⟨name, isMutable, initial⟩ := parts
    cases initial with
    | none => exact .error _
    | some term =>
        refine (term.yields_boundIn (.cons hlayer houter)).bind fun e he => ?_
        refine (yields_bindName_models hlayer line name isMutable e).bind fun scopes' hscopes => .ok ?_
        refine ⟨⟨⟨he, ?_⟩, trivial⟩, hscopes.2⟩
        rintro _ ⟨⟩
        exact hscopes.1
  · exact .error _

/-- The variable of a loop has a layer of its own. -/
theorem yields_bindName_counter (line : Nat) (counter : String) :
    Yields (fun inner => ∃ block, inner = block :: scopes ∧ Models (.ofCounter counter) block)
      (bindName ([] :: scopes) line counter false) := by
  refine .ok ⟨_, rfl, models_ofNames fun entry => ?_⟩
  rw [List.mem_singleton, List.mem_singleton, Prod.ext_iff]

end

mutual

/-- **Statements.** Elaboration binds every name of a statement, at any depth. -/
theorem Stmt.yields_places :
    ∀ (layer : Layer) (block : Block) (outer : List Layer) (scopes : Scopes) (isBody : Bool)
      (stmt : Stmt), Models layer block → List.Forall₂ Models outer scopes →
      Yields (fun out => Places layer outer scopes out.1 out.2) (stmt.elaborate (block :: scopes) isBody)
  | layer, known, outer, scopes, _, .declaration line declarators, hlayer, houter => by
      rw [Stmt.elaborate]
      exact (yields_bindDeclaration_places hlayer houter line declarators).bind fun bound h => .ok h
  | layer, known, outer, scopes, _, .expression line term, hlayer, houter => by
      rw [Stmt.elaborate]
      exact (yields_expressionStatement_boundIn (.cons hlayer houter) line term).bind
        fun statement h => .ok (places_singleton hlayer h.1 h.2)
  | layer, known, outer, scopes, _, .branch _ condition consequent none, hlayer, houter => by
      have hall := List.Forall₂.cons hlayer houter
      rw [Stmt.elaborate]
      refine (condition.yields_boundIn hall).bind fun c hc => ?_
      refine (Stmt.yields_places _ _ _ _ true consequent models_empty hall).bind fun t ht => .ok ?_
      exact places_singleton hlayer ⟨hc, ht.1⟩ fun _ _ _ => Statement.noConfusion
  | layer, known, outer, scopes, _, .branch _ condition consequent (some alternate), hlayer, houter => by
      have hall := List.Forall₂.cons hlayer houter
      rw [Stmt.elaborate]
      refine (condition.yields_boundIn hall).bind fun c hc => ?_
      refine (Stmt.yields_places _ _ _ _ true consequent models_empty hall).bind fun t ht => ?_
      refine (Stmt.yields_places _ _ _ _ true alternate models_empty hall).bind fun e he => .ok ?_
      exact places_singleton hlayer ⟨hc, ht.1, he.1⟩ fun _ _ _ => Statement.noConfusion
  | layer, known, outer, scopes, _, .loop line init test update body, hlayer, houter => by
      have hall := List.Forall₂.cons hlayer houter
      rw [Stmt.elaborate]
      refine .bind_any fun head => ?_
      -- the first value is elaborated outside the layer of the loop variable
      refine (head.first.yields_boundIn hall).bind fun first hfirst => ?_
      refine (yields_bindName_counter line head.counter).bind fun inner hinner => ?_
      obtain ⟨loopBlock, rfl, hcounter⟩ := hinner
      have hloop := List.Forall₂.cons hcounter hall
      refine (head.last.yields_boundIn hloop).bind fun last hlast => ?_
      refine (Stmt.yields_places _ _ _ _ true body models_empty hloop).bind fun out hout => .ok ?_
      exact places_singleton hlayer ⟨hfirst, hlast, hout.1⟩ fun _ _ _ => Statement.noConfusion
  | _, _, _, _, _, .whileLoop .., _, _ => by
      rw [Stmt.elaborate]
      exact .error _
  | _, _, _, _, _, .result .., _, _ => by
      rw [Stmt.elaborate]
      exact .error _
  | layer, known, outer, scopes, isBody, .block line statements, hlayer, houter => by
      rw [Stmt.elaborate]
      split
      · exact Stmt.yields_placesAll layer known outer scopes statements hlayer houter
      · exact .error _

theorem Stmt.yields_placesAll :
    ∀ (layer : Layer) (block : Block) (outer : List Layer) (scopes : Scopes) (stmts : List Stmt),
      Models layer block → List.Forall₂ Models outer scopes →
      Yields (fun out => Places layer outer scopes out.1 out.2)
        (Stmt.elaborateAll (block :: scopes) stmts)
  | layer, known, outer, scopes, [], hlayer, _ => by
      rw [Stmt.elaborateAll]
      exact .ok ⟨trivial, known, rfl, layer.after_nil.symm ▸ hlayer⟩
  | layer, known, outer, scopes, stmt :: rest, hlayer, houter => by
      rw [Stmt.elaborateAll]
      refine (Stmt.yields_places layer known outer scopes false stmt hlayer houter).bind fun out h => ?_
      obtain ⟨statements, scopes'⟩ := out
      -- the rest of the block sees what the statement has declared
      obtain ⟨hbound, block', rfl, hafter⟩ := h
      refine (Stmt.yields_placesAll _ _ outer scopes rest hafter houter).bind fun more hmore => .ok ?_
      obtain ⟨hrest, block'', hscopes, hmodels⟩ := hmore
      exact ⟨Statement.boundAllIn_append.mpr ⟨hbound, hrest⟩, block'', hscopes,
        layer.after_after statements more.1 ▸ hmodels⟩

end

/-! ## Scripts -/

theorem Body.yields_boundAllIn {layer : Layer} {block : Block} (hlayer : Models layer block)
    (body : Body) : Yields (Statement.BoundAllIn layer []) (body.elaborate [block]) := by
  cases body with
  | block stmts =>
      rw [Body.elaborate]
      exact (Stmt.yields_placesAll layer block [] [] stmts hlayer .nil).bind fun out h => .ok h.1
  | expression term =>
      rw [Body.elaborate]
      exact (term.yields_boundIn (.cons hlayer .nil)).bind fun e he => .ok ⟨he, trivial⟩

theorem models_paramBlock (c : Circuit) : Models ⟨c.paramNames, []⟩ (paramBlock c) := by
  refine models_ofNames fun entry => ?_
  rw [paramBlock, Circuit.paramNames, List.mem_append, or_comm, ← List.mem_append, ← List.map_append]
  constructor
  · intro hentry
    obtain ⟨p, hp, rfl⟩ := List.mem_map.mp hentry
    exact ⟨List.mem_map_of_mem hp, rfl⟩
  · rintro ⟨hname, hfalse⟩
    obtain ⟨p, hp, hpname⟩ := List.mem_map.mp hname
    exact List.mem_map.mpr ⟨p, hp, Prod.ext hpname hfalse.symm⟩

/-- The blocks of a circuit that was read are bound from its parameters on. -/
theorem boundAllIn_of_parse {text : String} {c : Circuit} (h : Circuit.parse text = .ok c) :
    Statement.BoundAllIn ⟨c.paramNames, []⟩ [] c.statements := by
  rw [Circuit.parse] at h
  split at h
  · cases h
  · rename_i d _
    obtain ⟨⟨publicParams, privateParams⟩, -, h⟩ := bind_eq_ok h
    obtain ⟨statements, hstatements, h⟩ := bind_eq_ok h
    cases h
    exact d.body.yields_boundAllIn (models_paramBlock _) statements hstatements

theorem nodup_paramNames_of_parse {text : String} {c : Circuit} (h : Circuit.parse text = .ok c) :
    c.paramNames.Nodup := by
  obtain ⟨parameters, body, -, ⟨publics, privates, hlists, hpublic, hprivate⟩, -⟩ :=
    lists_and_reads_of_parse h
  rw [Circuit.paramNames, hpublic, hprivate, map_name_numbered, map_name_numbered,
    List.nodup_append_comm]
  exact hlists.nodup

/-- **Scoping.** In every circuit that is read from a script: no two parameters have one name; every
expression stands in its layers, and every variable that it reads is bound there, by a parameter, by a
declaration before it in its block or in one around it, or by the variable of a loop around it; what is
assigned is declared as mutable by the innermost layer that binds it; and a declaration is new to its
block, parameters included. -/
theorem well_scoped_of_parse (text : String) (c : Circuit) (h : Circuit.parse text = .ok c) :
    c.paramNames.Nodup ∧
      (∀ e ∈ Statement.exprsOf c.statements, ∃ layers, c.Stands layers e) ∧
      (∀ layers e, c.Stands layers e → ∀ name ∈ e.reads, ∃ layer ∈ layers, layer.Binds name) ∧
      (∀ layers target value marked, c.Place layers (.assign target value marked) →
        ∃ inner layer outer, layers = inner ++ layer :: outer ∧ (∀ l ∈ inner, ¬ l.Binds target) ∧
          layer.Assignable target) ∧
      ∀ layer outer name isMutable initial,
        c.Place (layer :: outer) (.declare name isMutable initial) → ¬ layer.Binds name := by
  have hbound := boundAllIn_of_parse h
  refine ⟨nodup_paramNames_of_parse h, ?_, ?_, ?_, ?_⟩
  · exact c.exists_standsAll c.statements fun before statement rest heq => ⟨_, .top heq⟩
  · exact fun layers e hstands => hstands.boundIn hbound
  · exact fun layers target value marked hplace => (hplace.boundIn hbound).2
  · exact fun layer outer name isMutable initial hplace => (hplace.boundIn hbound).2 layer rfl

/-- A variable that a loop assigns, whose body has one statement. -/
def sumScript : String := "([n], [a]) => { let mut_s = a; for (let i = 0; i < n; i++) mut_s += i; }"

/-- What the grammar makes of `sumScript`. -/
def sumDefinition : Definition where
  parameters := .listed 1 [.pattern 1 [(1, "n")], .pattern 1 [(1, "a")]]
  body := .block [.declaration 1 [⟨1, .name "mut_s", some (.ident 1 "a")⟩],
    .loop 1 (.declaration ⟨1, .name "i", some (.number 1 ['0'])⟩)
      (some ⟨1, .binary 1 .lt (.ident 1 "i") (.ident 1 "n")⟩) (some (.step 1 .up (.ident 1 "i")))
      (.expression 1 (.assign 1 .add (.ident 1 "mut_s") (.ident 1 "i")))]

/-- The assignment of `sumScript`. -/
def sumStep : Statement := .assign "s" (.binary .add (.identifier "s") (.identifier "i")) true

/-- The circuit of `sumScript`. -/
def sumCircuit : Circuit where
  publicParams := [⟨"n", 0⟩]
  privateParams := [⟨"a", 0⟩]
  statements := [.declare "s" true (.identifier "a"),
    .loop "i" (.literal (.int 0)) (.identifier "n") false [sumStep]]

/-- The layers around the assignment: its block, the loop variable, and the top of the circuit. -/
def sumLayers : List Layer :=
  [⟨[], []⟩, .ofCounter "i", ⟨["a", "n"], [.declare "s" true (.identifier "a")]⟩]

/-- The assignment inside the loop changes the variable that is declared outside of it. -/
theorem well_scoped_of_parse_sum :
    Circuit.parse sumScript = .ok sumCircuit ∧ sumCircuit.Place sumLayers sumStep ∧
      ∃ inner layer outer, sumLayers = inner ++ layer :: outer ∧ (∀ l ∈ inner, ¬ l.Binds "s") ∧
        layer.Assignable "s" := by
  have hdefinition : Definition.parse sumScript.toList = .ok sumDefinition := by cbv
  have hparse : Circuit.parse sumScript = .ok sumCircuit := by
    rw [Circuit.parse, hdefinition]
    rfl
  have hloop : sumCircuit.Place [⟨["a", "n"], [.declare "s" true (.identifier "a")]⟩]
      (.loop "i" (.literal (.int 0)) (.identifier "n") false ([] ++ sumStep :: [])) := .top rfl
  have hplace : sumCircuit.Place sumLayers sumStep := .body hloop
  obtain ⟨-, -, -, hassign, -⟩ := well_scoped_of_parse sumScript sumCircuit hparse
  exact ⟨hparse, hplace, hassign _ _ _ _ hplace⟩

end Script

end ArrowCircuit
