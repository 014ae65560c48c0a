import ArrowCircuit.Proofs.Circuit.Division
import ArrowCircuit.Proofs.Lowering.Soundness

/-!
# Faults of lowered programs

What has been lowered is scoped and made of operations on the field, so that its reference semantics
can fail in one way only: by a division by zero.  Where there is no division there is no fault, and
no quotient in the schedule.
-/

namespace ArrowCircuit.Lowering

variable {F : Type}

/-- An outcome that is a value, or, where this may be, a division by zero. -/
def OnlyDivides {α : Type} (p : Prop) (r : Except Reference.Fault α) : Prop :=
  ∀ e, r = .error e → e = .divisionByZero ∧ p

namespace OnlyDivides

variable {α β : Type} {p q : Prop}

theorem ok (a : α) : OnlyDivides p (.ok a) :=
  nofun

theorem mono {r : Except Reference.Fault α} (h : OnlyDivides p r) (hpq : p → q) :
    OnlyDivides q r := by
  intro e he
  obtain ⟨heq, hp⟩ := h e he
  exact ⟨heq, hpq hp⟩

theorem bind {r : Except Reference.Fault α} {g : α → Except Reference.Fault β}
    (h : OnlyDivides p r) (hg : ∀ a, r = .ok a → OnlyDivides p (g a)) :
    OnlyDivides p (r >>= g) := by
  cases r with
  | error e =>
      rintro e' ⟨⟩
      exact h e rfl
  | ok a => exact hg a rfl

/-- Where no division can be, there is a value. -/
theorem exists_ok {r : Except Reference.Fault α} (h : OnlyDivides p r) (hp : ¬ p) :
    ∃ a, r = .ok a := by
  cases r with
  | error e => exact absurd (h e rfl).2 hp
  | ok a => exact ⟨a, rfl⟩

end OnlyDivides

/-- The names in scope have values. -/
def Scoped (s : State) (env : Reference.Env F) : Prop :=
  ∀ n, (s.lookup? n).isSome → (env.lookup n).isSome

theorem Scoped.congr {s s' : State} {env : Reference.Env F} (h : Scoped s env)
    (hscope : s'.scope = s.scope) : Scoped s' env := by
  intro n hn
  rw [State.lookup?, hscope] at hn
  exact h n hn

/-- A name that is bound gets a value. -/
theorem Scoped.bindName {s : State} {env : Reference.Env F} (h : Scoped s env) (n : String)
    (b : Binding) (x : F) : Scoped (s.bindName n b) ((n, x) :: env) := by
  intro m hm
  rw [State.lookup?, State.bindName, List.lookup_cons] at hm
  rw [List.lookup_cons]
  cases hmn : m == n with
  | true => rfl
  | false =>
      rw [hmn] at hm
      exact h m hm

theorem scoped_env (s : State) (w : Nat → F) : Scoped s (s.env w) := by
  intro n hn
  rw [lookup_env, Option.isSome_map]
  exact hn

variable [Field F] [DecidableEq F] {f : PrimeField} {env : Reference.Env F}

/-! ## Expressions -/

theorem onlyDivides_binary {op : BinaryOp} {l r : Expr} (ha : (arithmetic? op).isSome)
    (hl : OnlyDivides l.HasDivision (Reference.eval env l))
    (hr : OnlyDivides r.HasDivision (Reference.eval env r)) :
    OnlyDivides (Expr.binary op l r).HasDivision (Reference.eval env (.binary op l r)) := by
  rw [Reference.eval]
  refine (hl.mono .left).bind fun x _ => (hr.mono .right).bind fun y _ => ?_
  cases op with
  | add | sub | mul => exact .ok _
  | div =>
      rw [Reference.apply]
      by_cases hy : y = 0
      · rw [if_pos hy]
        rintro e ⟨⟩
        exact ⟨rfl, .here l r⟩
      · rw [if_neg hy]
        exact .ok _
  | _ => cases ha

theorem Lowers.onlyDivides {e : Expr} {s s' : State} {t : LinearForm} (h : Lowers f e s t s')
    (hs : Scoped s env) : OnlyDivides e.HasDivision (Reference.eval env e) := by
  induction h with
  | @name n b s hb =>
      obtain ⟨x, hx⟩ := Option.isSome_iff_exists.mp (hs n (by rw [hb, Option.isSome_some]))
      rw [Reference.eval, hx]
      exact .ok x
  | int _ _ => exact .ok _
  | bool _ _ => exact .ok _
  | operation ha hl _ ihl ihr =>
      exact onlyDivides_binary (by rw [ha, Option.isSome_some]) (ihl hs)
        (ihr (hs.congr hl.scope_eq))
  | negation _ ih => exact ((ih hs).mono .operand).bind fun x _ => .ok _

theorem LowersAll.onlyDivides {es : List Expr} {s s' : State} {ts : List LinearForm}
    (h : LowersAll f es s ts s') (hs : Scoped s env) :
    ∀ e ∈ es, OnlyDivides e.HasDivision (Reference.eval env e) := by
  induction h with
  | nil _ => simp
  | cons h _ ih =>
      exact List.forall_mem_cons.mpr ⟨h.onlyDivides hs, ih (hs.congr h.scope_eq)⟩

/-! ## Statements -/

theorem isSome_arithmetic?_sumOp (isSum : Bool) : (arithmetic? (sumOp isSum)).isSome := by
  cases isSum <;> rfl

theorem Equates.onlyDivides {l r : Expr} {s s' : State} (h : Equates f l r s s')
    (hs : Scoped s env) :
    OnlyDivides l.HasDivision (Reference.eval env l) ∧
      OnlyDivides r.HasDivision (Reference.eval env r) := by
  cases h with
  | productLeft h =>
      obtain ⟨hl, hr, he⟩ := by simpa using h.onlyDivides hs
      exact ⟨onlyDivides_binary rfl hl hr, he⟩
  | productRight h =>
      obtain ⟨hl, hr, he⟩ := by simpa using h.onlyDivides hs
      exact ⟨he, onlyDivides_binary rfl hl hr⟩
  | sumLeft h =>
      obtain ⟨hl, hr, he⟩ := by simpa using h.onlyDivides hs
      exact ⟨onlyDivides_binary (isSome_arithmetic?_sumOp _) hl hr, he⟩
  | sumRight h =>
      obtain ⟨hl, hr, he⟩ := by simpa using h.onlyDivides hs
      exact ⟨he, onlyDivides_binary (isSome_arithmetic?_sumOp _) hl hr⟩
  | plain h => simpa using h.onlyDivides hs

theorem Materializes.onlyDivides {e : Expr} {s s' : State} {i : Nat}
    (h : Materializes f e s i s') (hs : Scoped s env) :
    OnlyDivides e.HasDivision (Reference.eval env e) := by
  cases h with
  | held h _ => exact h.onlyDivides hs
  | stored h => exact h.onlyDivides hs

theorem Assigns.onlyDivides {e : Expr} {s s' : State} (h : Assigns f e s s') (hs : Scoped s env) :
    OnlyDivides e.HasDivision (Reference.eval env e) := by
  cases h with
  | operation h => exact h.onlyDivides hs
  | value h => exact h.onlyDivides hs

variable {settings : Settings}

/-- A step fails by a division of its own only, and leaves every name in scope with a value. -/
def StepDivides (env : Reference.Env F) (statement : Statement) (s' : State) : Prop :=
  OnlyDivides statement.HasDivision (Reference.step env statement) ∧
    ∀ env' ds, Reference.step env statement = .ok (env', ds) → Scoped s' env'

theorem stepDivides_assert {e : Expr} {m : Option Text} {s' : State}
    (h : OnlyDivides e.HasDivision (Reference.demand env e)) (hs : Scoped s' env) :
    StepDivides env (.assert e m) s' := by
  refine ⟨(h.mono .assert).bind fun d _ => .ok _, ?_⟩
  intro env' ds hstep
  obtain ⟨d, _, hd⟩ := bind_eq_ok hstep
  cases hd
  exact hs

theorem onlyDivides_demand_order {op : BinaryOp} {l r a b : Expr} {strict : Bool}
    (hop : orderSides op l r = some (a, b, strict))
    (ha : OnlyDivides a.HasDivision (Reference.eval env a))
    (hb : OnlyDivides b.HasDivision (Reference.eval env b)) :
    OnlyDivides (Expr.binary op l r).HasDivision (Reference.demand env (.binary op l r)) := by
  cases op with
  | ge | gt =>
      cases hop
      exact (ha.mono .left).bind fun x _ => (hb.mono .right).bind fun y _ => .ok _
  | le | lt =>
      cases hop
      exact (hb.mono .left).bind fun x _ => (ha.mono .right).bind fun y _ => .ok _
  | _ => cases hop

theorem Lowers.onlyDivides_demand {e : Expr} {s s' : State} {t : LinearForm}
    (h : Lowers f e s t s') (he : ∀ op l r, e ≠ .binary op l r) (hs : Scoped s env) :
    OnlyDivides e.HasDivision (Reference.demand env e) := by
  have heval := h.onlyDivides hs
  cases h with
  | operation _ _ _ => exact absurd rfl (he _ _ _)
  | _ => exact heval.bind fun x _ => .ok _

theorem LowersStatement.stepDivides {statement : Statement} {s s' : State}
    (h : LowersStatement settings statement s s') (hs : Scoped s env) :
    StepDivides env statement s' := by
  cases h with
  | equality h =>
      obtain ⟨hl, hr⟩ := h.onlyDivides hs
      exact stepDivides_assert
        ((hl.mono .left).bind fun x _ => (hr.mono .right).bind fun y _ => .ok _)
        (hs.congr h.scope_eq)
  | order hop ha hb =>
      have hs₁ := hs.congr ha.scope_eq
      exact stepDivides_assert
        (onlyDivides_demand_order hop (ha.onlyDivides hs) (hb.onlyDivides hs₁))
        (hs₁.congr hb.scope_eq)
  | truth he h => exact stepDivides_assert (h.onlyDivides_demand he hs) (hs.congr h.scope_eq)
  | declare _ h =>
      refine ⟨((h.onlyDivides hs).mono .declare).bind fun x _ => .ok _, ?_⟩
      intro env' ds hstep
      obtain ⟨x, _, hx⟩ := bind_eq_ok hstep
      cases hx
      exact (hs.congr h.scope_eq).bindName _ _ x
  | assign _ _ h =>
      refine ⟨((h.onlyDivides hs).mono .assign).bind fun x _ => .ok _, ?_⟩
      intro env' ds hstep
      obtain ⟨x, _, hx⟩ := bind_eq_ok hstep
      cases hx
      exact (hs.congr h.scope_eq).bindName _ _ x

/-- **Faults.** A lowered program fails by a division by zero only, and only if it divides. -/
theorem onlyDivides_of_lowerStatements {statements : List Statement} {s s' : State}
    (h : lowerStatements settings statements s = .ok s') (hs : Scoped s env) :
    OnlyDivides (∃ statement ∈ statements, statement.HasDivision)
      (Reference.run statements env) := by
  induction statements generalizing s env with
  | nil => exact .ok _
  | cons statement rest ih =>
      obtain ⟨s₁, hstep, hrest⟩ := lowerStatements_cons h
      obtain ⟨hdiv, hscoped⟩ := hstep.stepDivides hs
      refine (hdiv.mono fun h => ⟨statement, List.mem_cons_self, h⟩).bind fun out hout => ?_
      obtain ⟨env', ds⟩ := out
      refine ((ih hrest (hscoped env' ds hout)).mono ?_).bind fun out' _ => .ok _
      rintro ⟨other, hmem, hother⟩
      exact ⟨other, List.mem_cons_of_mem statement hmem, hother⟩

/-! ## Quotients of the schedule -/

/-- The quotients of a later state are those of an earlier one, or there is a division. -/
def KeepsQuotients (p : Prop) (s s' : State) : Prop :=
  ∀ t num den, .quotient t num den ∈ s'.computations → .quotient t num den ∈ s.computations ∨ p

namespace KeepsQuotients

variable {p q : Prop} {s s₁ s' : State}

/-- A state with the same schedule has the same quotients. -/
theorem of_eq (h : s'.computations = s.computations) : KeepsQuotients p s s' :=
  fun _ _ _ hmem => .inl (h ▸ hmem)

theorem trans (h : KeepsQuotients p s s₁) (h' : KeepsQuotients p s₁ s') :
    KeepsQuotients p s s' := by
  intro t num den hmem
  rcases h' t num den hmem with hmem | hp
  · exact h t num den hmem
  · exact .inr hp

theorem mono (h : KeepsQuotients p s s') (hpq : p → q) : KeepsQuotients q s s' :=
  fun t num den hmem => (h t num den hmem).imp_right hpq

/-- Computations that are no quotients. -/
theorem append {cs : List Computation} (h : s'.computations = s.computations ++ cs)
    (hcs : ∀ t num den, .quotient t num den ∈ cs → p) : KeepsQuotients p s s' := by
  intro t num den hmem
  rw [h] at hmem
  exact (List.mem_append.mp hmem).imp_right (hcs t num den)

theorem linear (s : State) (k : Constraint) (target : Nat) (terms : LinearForm) :
    KeepsQuotients p s (s.define k (.linear target terms)) := by
  refine append rfl ?_
  simp

theorem order (s : State) (left right : Nat) (offset : Int) :
    KeepsQuotients p s (s.order settings left right offset) := by
  refine append rfl ?_
  simp

end KeepsQuotients

variable {s s' : State}

theorem keepsQuotients_operation {op : BinaryOp} {a : Arithmetic} {l r : Expr}
    (ha : arithmetic? op = some a) (left right : LinearForm) (target : Nat) (k : Constraint) :
    KeepsQuotients (Expr.binary op l r).HasDivision s
      (s.define k (operationComputation f left right target a)) := by
  refine .append rfl ?_
  intro t num den hmem
  cases op with
  | div => exact .here l r
  | add | sub | mul =>
      cases ha
      simp [operationComputation] at hmem
  | _ => cases ha

theorem Lowers.keepsQuotients {e : Expr} {t : LinearForm} (h : Lowers f e s t s') :
    KeepsQuotients e.HasDivision s s' := by
  induction h with
  | name _ => exact .of_eq rfl
  | int _ _ => exact .of_eq rfl
  | bool _ _ => exact .of_eq rfl
  | @operation op a l r s s₁ s₂ left right ha hl hr ihl ihr =>
      have halloc : KeepsQuotients (Expr.binary op l r).HasDivision s s.alloc.2 := .of_eq rfl
      have hdefine := keepsQuotients_operation (f := f) (l := l) (r := r) (s := s₂) ha left right
        s.next (operationConstraint f left right s.next a)
      exact halloc.trans ((ihl.mono .left).trans ((ihr.mono .right).trans hdefine))
  | @negation e s s₁ terms he ih =>
      have halloc : KeepsQuotients (Expr.unary .neg e).HasDivision s s.alloc.2 := .of_eq rfl
      exact halloc.trans ((ih.mono .operand).trans (.linear _ _ _ _))

theorem LowersAll.keepsQuotients {es : List Expr} {ts : List LinearForm}
    (h : LowersAll f es s ts s') : KeepsQuotients (∃ e ∈ es, e.HasDivision) s s' := by
  induction h with
  | nil _ => exact .of_eq rfl
  | @cons e es s s₁ s' t ts h hs ih =>
      refine (h.keepsQuotients.mono fun hd => ⟨e, List.mem_cons_self, hd⟩).trans (ih.mono ?_)
      rintro ⟨other, hmem, hd⟩
      exact ⟨other, List.mem_cons_of_mem e hmem, hd⟩

theorem Equates.keepsQuotients {l r : Expr} (h : Equates f l r s s') :
    KeepsQuotients (l.HasDivision ∨ r.HasDivision) s s' := by
  cases h with
  | productLeft h | sumLeft h =>
      refine (h.keepsQuotients.mono ?_).trans (.of_eq rfl)
      simp only [List.mem_cons, List.not_mem_nil, or_false, exists_eq_or_imp, exists_eq_left]
      rintro (hd | hd | hd)
      · exact .inl (.left hd)
      · exact .inl (.right hd)
      · exact .inr hd
  | productRight h | sumRight h =>
      refine (h.keepsQuotients.mono ?_).trans (.of_eq rfl)
      simp only [List.mem_cons, List.not_mem_nil, or_false, exists_eq_or_imp, exists_eq_left]
      rintro (hd | hd | hd)
      · exact .inr (.left hd)
      · exact .inr (.right hd)
      · exact .inl hd
  | plain h =>
      refine (h.keepsQuotients.mono ?_).trans (.of_eq rfl)
      simp only [List.mem_cons, List.not_mem_nil, or_false, exists_eq_or_imp, exists_eq_left]
      exact id

theorem Materializes.keepsQuotients {e : Expr} {i : Nat} (h : Materializes f e s i s') :
    KeepsQuotients e.HasDivision s s' := by
  cases h with
  | held h _ => exact h.keepsQuotients
  | @stored s₁ t h =>
      have halloc : KeepsQuotients e.HasDivision s₁ s₁.alloc.2 := .of_eq rfl
      exact h.keepsQuotients.trans (halloc.trans (.linear _ _ _ _))

theorem Assigns.keepsQuotients {e : Expr} (h : Assigns f e s s') :
    KeepsQuotients e.HasDivision s s' := by
  cases h with
  | operation h => exact h.keepsQuotients
  | value h =>
      have halloc : KeepsQuotients e.HasDivision s s.alloc.2 := .of_eq rfl
      exact halloc.trans (h.keepsQuotients.trans (.linear _ _ _ _))

theorem hasDivision_of_orderSides {op : BinaryOp} {l r a b : Expr} {strict : Bool}
    (hop : orderSides op l r = some (a, b, strict)) (h : a.HasDivision ∨ b.HasDivision) :
    (Expr.binary op l r).HasDivision := by
  cases op with
  | ge | gt =>
      cases hop
      exact h.elim .left .right
  | le | lt =>
      cases hop
      exact h.elim .right .left
  | _ => cases hop

theorem LowersStatement.keepsQuotients {statement : Statement}
    (h : LowersStatement settings statement s s') :
    KeepsQuotients statement.HasDivision s s' := by
  cases h with
  | equality h =>
      refine h.keepsQuotients.mono ?_
      rintro (hd | hd)
      · exact .assert (.left hd)
      · exact .assert (.right hd)
  | order hop ha hb =>
      have hside := hasDivision_of_orderSides hop
      exact (ha.keepsQuotients.mono fun hd => .assert (hside (.inl hd))).trans
        ((hb.keepsQuotients.mono fun hd => .assert (hside (.inr hd))).trans (.order _ _ _ _))
  | truth _ h => exact (h.keepsQuotients.mono .assert).trans (.of_eq rfl)
  | declare _ h => exact (h.keepsQuotients.mono .declare).trans (.of_eq rfl)
  | assign _ _ h => exact (h.keepsQuotients.mono .assign).trans (.of_eq rfl)

/-- **Quotients.** A program without a division schedules no quotient. -/
theorem keepsQuotients_of_lowerStatements {statements : List Statement}
    (h : lowerStatements settings statements s = .ok s') :
    KeepsQuotients (∃ statement ∈ statements, statement.HasDivision) s s' := by
  induction statements generalizing s with
  | nil =>
      cases h
      exact .of_eq rfl
  | cons statement rest ih =>
      obtain ⟨s₁, hstep, hrest⟩ := lowerStatements_cons h
      refine (hstep.keepsQuotients.mono fun hd => ⟨statement, List.mem_cons_self, hd⟩).trans
        ((ih hrest).mono ?_)
      rintro ⟨other, hmem, hd⟩
      exact ⟨other, List.mem_cons_of_mem statement hmem, hd⟩

end ArrowCircuit.Lowering
