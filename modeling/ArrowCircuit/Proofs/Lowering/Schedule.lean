import ArrowCircuit.Proofs.Lowering.Growth

/-!
# The schedule of a lowered circuit

An operation sets its target aside before its operands are lowered, and computes it after them, so
that indices and computations come in different orders.  What holds all the same is that every index
behind the parameters is filled by one computation, that a computation reads only what has been filled
before it, and that constraints speak of indices that there are.

Each of these is an invariant of what a part of a circuit adds to a state (`Adds`), given the indices
that are known before.
-/

namespace ArrowCircuit

/-- The indices that a computation reads. -/
def Computation.sources : Computation → List Nat
  | .subtract _ left right _ => [left, right]
  | .bits source _ _ => [source]
  | .linear _ terms => terms.map (·.index)
  | .product _ left right => left.map (·.index) ++ right.map (·.index)
  | .quotient _ numerator denominator => numerator.map (·.index) ++ denominator.map (·.index)
  | .unknown _ => []

/-- A computation of a known kind, with a target for each of its bits. -/
def Computation.Proper : Computation → Prop
  | .bits _ targets count => targets.length = count
  | .unknown _ => False
  | _ => True

/-- Every index of a constraint has a property. -/
def Constraint.Within (P : Nat → Prop) (c : Constraint) : Prop :=
  c.a.Within P ∧ c.b.Within P ∧ c.c.Within P

theorem Constraint.Within.mono {P Q : Nat → Prop} {c : Constraint} (h : c.Within P)
    (hPQ : ∀ i, P i → Q i) : c.Within Q :=
  ⟨h.1.mono hPQ, h.2.1.mono hPQ, h.2.2.mono hPQ⟩

/-! ## Schedules -/

namespace Schedule

/-- The indices that computations fill, in the order in which they do. -/
def filled (cs : List Computation) : List Nat := cs.flatMap Computation.targets

/-- What is known behind computations. -/
def After (known : Nat → Prop) (cs : List Computation) (i : Nat) : Prop := known i ∨ i ∈ filled cs

/-- Every computation reads only what is known or has been filled before it. -/
def InOrder (known : Nat → Prop) : List Computation → Prop
  | [] => True
  | c :: rest => c.Proper ∧ (∀ i ∈ c.sources, known i) ∧ InOrder (After known [c]) rest

variable {known : Nat → Prop}

theorem filled_append (cs ds : List Computation) : filled (cs ++ ds) = filled cs ++ filled ds :=
  List.flatMap_append

theorem filled_singleton (c : Computation) : filled [c] = c.targets := List.flatMap_singleton ..

theorem after_nil : After known [] = known := by
  funext i
  exact propext (or_iff_left List.not_mem_nil)

theorem after_append (cs ds : List Computation) :
    After known (cs ++ ds) = After (After known cs) ds := by
  funext i
  simp only [After, filled_append, List.mem_append, or_assoc]

theorem inOrder_append {cs ds : List Computation} :
    InOrder known (cs ++ ds) ↔ InOrder known cs ∧ InOrder (After known cs) ds := by
  induction cs generalizing known with
  | nil => simp only [List.nil_append, InOrder, after_nil, true_and]
  | cons c cs ih =>
      rw [List.cons_append, InOrder, InOrder, ih, ← after_append, List.singleton_append]
      simp only [and_assoc]

theorem inOrder_singleton {c : Computation} :
    InOrder known [c] ↔ c.Proper ∧ ∀ i ∈ c.sources, known i := by
  simp only [InOrder, and_true]

end Schedule

/-! ## What lowering adds -/

namespace Lowering

open Schedule

variable {f : PrimeField} {settings : Settings} {known : Nat → Prop}

/-- The indices that may be used in a state: the constant, the names in scope, and perhaps others that
have been allocated. -/
structure Knows (known : Nat → Prop) (s : State) : Prop where
  one : known oneIndex
  bound : ∀ entry ∈ s.scope, known entry.2.index
  lt_next : ∀ i, known i → i < s.next

/-- What is added to a state when these indices are known: computations in order, which fill each new
index once, and constraints over the indices that there are. -/
structure Adds (known : Nat → Prop) (s : State) (cs : List Computation) (s' : State) : Prop where
  computations : s'.computations = s.computations ++ cs
  next_le : s.next ≤ s'.next
  inOrder : InOrder known cs
  perm : (filled cs).Perm (List.range' s.next (s'.next - s.next))
  constraints : (∀ k ∈ s.constraints, k.Within (· < s.next)) →
    ∀ k ∈ s'.constraints, k.Within (· < s'.next)

theorem Knows.of_lookup? {s : State} (h : Knows known s) {n : String} {b : Binding}
    (hb : s.lookup? n = some b) : known b.index := by
  obtain ⟨l, r, hscope, _⟩ := List.lookup_eq_some_iff.mp hb
  exact h.bound (n, b) (by simp [hscope])

theorem Knows.alloc {s : State} (h : Knows known s) : Knows known s.alloc.2 :=
  ⟨h.one, h.bound, fun i hi => Nat.lt_succ_of_lt (h.lt_next i hi)⟩

/-- What has been filled in between lies behind the earlier indices. -/
theorem Adds.mem_filled_iff {s s' : State} {cs : List Computation} (h : Adds known s cs s') {i : Nat} :
    i ∈ filled cs ↔ s.next ≤ i ∧ i < s'.next := by
  have hle := h.next_le
  rw [h.perm.mem_iff, List.mem_range'_1]
  omega

theorem Knows.after {s s' : State} {cs : List Computation} (hk : Knows known s)
    (h : Adds known s cs s') (hscope : s'.scope = s.scope) : Knows (After known cs) s' := by
  refine ⟨.inl hk.one, fun entry hentry => .inl (hk.bound entry (hscope ▸ hentry)), ?_⟩
  rintro i (hi | hi)
  · exact (hk.lt_next i hi).trans_le h.next_le
  · exact (h.mem_filled_iff.mp hi).2

namespace Adds

variable {s s₁ s' : State} {cs ds : List Computation}

theorem refl (s : State) : Adds known s [] s := by
  refine ⟨(List.append_nil _).symm, Nat.le_refl _, trivial, ?_, id⟩
  rw [Nat.sub_self]
  exact List.Perm.nil

theorem trans (h : Adds known s cs s₁) (h' : Adds (After known cs) s₁ ds s') :
    Adds known s (cs ++ ds) s' := by
  have hle := h.next_le
  have hle' := h'.next_le
  refine ⟨?_, hle.trans hle', inOrder_append.mpr ⟨h.inOrder, h'.inOrder⟩, ?_,
    fun hs => h'.constraints (h.constraints hs)⟩
  · rw [h'.computations, h.computations, List.append_assoc]
  · -- the new indices of both parts, one run behind the other
    have hrange : List.range' s.next (s'.next - s.next) =
        List.range' s.next (s₁.next - s.next) ++ List.range' s₁.next (s'.next - s₁.next) := by
      obtain ⟨n, hn⟩ := Nat.exists_eq_add_of_le hle
      obtain ⟨m, hm⟩ := Nat.exists_eq_add_of_le hle'
      have hwhole : s'.next - s.next = n + m := by omega
      have hfirst : s₁.next - s.next = n := by omega
      have hsecond : s'.next - s₁.next = m := by omega
      rw [hwhole, hfirst, hsecond, hn, List.range'_append_1]
    rw [filled_append, hrange]
    exact h.perm.append h'.perm

/-- A constraint over indices that there are. -/
theorem emit (h : Adds known s cs s₁) {a b c : LinearForm} (ha : a.Within (· < s₁.next))
    (hb : b.Within (· < s₁.next)) (hc : c.Within (· < s₁.next)) :
    Adds known s cs (s₁.emit f a b c) := by
  refine ⟨h.computations, h.next_le, h.inOrder, h.perm, fun hs => ?_⟩
  exact List.forall_mem_append.mpr ⟨h.constraints hs,
    List.forall_mem_singleton.mpr ⟨ha.merge f, hb.merge f, hc.merge f⟩⟩

/-- **Targets.** An index is set aside, what is needed for it is added, and it is filled last. -/
theorem define (h : Adds known s.alloc.2 cs s₁) {k : Constraint} {c : Computation}
    (hproper : c.Proper) (htarget : c.targets = [s.next])
    (hsources : ∀ i ∈ c.sources, After known cs i) (hk : k.Within (· < s₁.next)) :
    Adds known s (cs ++ [c]) (s₁.define k c) := by
  have hle : s.next + 1 ≤ s₁.next := h.next_le
  refine ⟨?_, Nat.le_of_succ_le hle,
    inOrder_append.mpr ⟨h.inOrder, inOrder_singleton.mpr ⟨hproper, hsources⟩⟩, ?_, fun hs => ?_⟩
  · rw [State.define, h.computations, ← List.append_assoc]
    rfl
  · have hrange : List.range' s.next (s₁.next - s.next) =
        s.next :: List.range' (s.next + 1) (s₁.next - (s.next + 1)) := by
      rw [show s₁.next - s.next = s₁.next - (s.next + 1) + 1 by omega, List.range'_succ]
    change (filled (cs ++ [c])).Perm (List.range' s.next (s₁.next - s.next))
    rw [filled_append, filled_singleton, htarget, hrange]
    exact (List.perm_append_singleton _ _).trans (h.perm.cons _)
  · refine List.forall_mem_append.mpr ⟨h.constraints fun k hk => ?_, List.forall_mem_singleton.mpr hk⟩
    exact (hs k hk).mono fun i hi => Nat.lt_succ_of_lt hi

end Adds

/-! ## Indices of equations and computations -/

section Indices

variable {P : Nat → Prop} {left right terms : LinearForm} {target : Nat}

theorem within_combine (hl : left.Within P) (hr : right.Within P) (isSum : Bool) :
    (combine f isSum left right).Within P := by
  refine hl.append ?_
  cases isSum with
  | true => exact hr
  | false => exact hr.negate f

theorem within_linearConstraint (h : terms.Within P) (htarget : P target) (hone : P oneIndex) :
    (linearConstraint f terms target).Within P :=
  ⟨h.merge f, (LinearForm.within_singleton hone).merge f,
    (LinearForm.within_singleton htarget).merge f⟩

theorem within_operationConstraint (hl : left.Within P) (hr : right.Within P) (htarget : P target)
    (hone : P oneIndex) (a : Arithmetic) :
    (operationConstraint f left right target a).Within P := by
  have ht : (LinearForm.single target).Within P := LinearForm.within_singleton htarget
  cases a with
  | add | sub => exact within_linearConstraint ((within_combine hl hr _).merge f) htarget hone
  | mul => exact ⟨(hl.merge f).merge f, (hr.merge f).merge f, ht.merge f⟩
  | div => exact ⟨ht.merge f, (hr.merge f).merge f, (hl.merge f).merge f⟩

theorem proper_operationComputation (a : Arithmetic) :
    (operationComputation f left right target a).Proper := by
  cases a <;> trivial

theorem forall_mem_sources_linear (h : terms.Within P) :
    ∀ i ∈ (Computation.linear target terms).sources, P i :=
  List.forall_mem_map.mpr h

theorem forall_mem_sources_operation (hl : left.Within P) (hr : right.Within P) (a : Arithmetic) :
    ∀ i ∈ (operationComputation f left right target a).sources, P i := by
  cases a with
  | add | sub => exact forall_mem_sources_linear ((within_combine hl hr _).merge f)
  | mul | div =>
      exact List.forall_mem_append.mpr
        ⟨List.forall_mem_map.mpr (hl.merge f), List.forall_mem_map.mpr (hr.merge f)⟩

end Indices

/-! ## Expressions -/

/-- An index set aside is filled with the value of a form. -/
theorem Adds.linear {s s₁ : State} {cs : List Computation} (hk : Knows known s)
    (h : Adds known s.alloc.2 cs s₁) (hscope : s₁.scope = s.scope) {t u : LinearForm}
    (ht : t.Within (After known cs)) (hu : u.Within (After known cs)) :
    Adds known s (cs ++ [.linear s.next u])
      (s₁.define (linearConstraint f t s.next) (.linear s.next u)) := by
  have hafter := hk.alloc.after h hscope
  exact h.define trivial rfl (forall_mem_sources_linear hu)
    (within_linearConstraint (ht.mono hafter.lt_next) h.next_le (hafter.lt_next _ hafter.one))

/-- A target that was filled last is known. -/
theorem after_target {s : State} {cs : List Computation} {c : Computation}
    (htarget : c.targets = [s.next]) : After known (cs ++ [c]) s.next := by
  refine .inr ?_
  rw [filled_append, filled_singleton, htarget]
  exact List.mem_append_right _ List.mem_cons_self

/-- **Expressions.** What lowering an expression adds, and its form then uses what is known. -/
theorem Lowers.adds {e : Expr} {s s' : State} {t : LinearForm} (h : Lowers f e s t s') :
    ∀ {known : Nat → Prop}, Knows known s →
      ∃ cs, Adds known s cs s' ∧ t.Within (After known cs) := by
  induction h with
  | name hb =>
      intro known hk
      exact ⟨[], .refl _, LinearForm.within_singleton (.inl (hk.of_lookup? hb))⟩
  | int z s =>
      intro known hk
      exact ⟨[], .refl _, LinearForm.within_singleton (.inl hk.one)⟩
  | bool b s =>
      intro known hk
      exact ⟨[], .refl _, LinearForm.within_singleton (.inl hk.one)⟩
  | @operation op a l r s s₁ s₂ left right ha hl hr ihl ihr =>
      intro known hk
      obtain ⟨cs, hcs, hleft⟩ := ihl hk.alloc
      obtain ⟨ds, hds, hright⟩ := ihr (hk.alloc.after hcs hl.scope_eq)
      have hboth := hcs.trans hds
      have hafter := hk.alloc.after hboth (hr.scope_eq.trans hl.scope_eq)
      -- the left operand's indices stay known while the right one is lowered
      rw [← after_append] at hright
      have hleft : left.Within (After known (cs ++ ds)) := by
        rw [after_append]
        exact hleft.mono fun i hi => .inl hi
      refine ⟨_, hboth.define (proper_operationComputation a)
        (targets_operationComputation left right s.next a)
        (forall_mem_sources_operation hleft hright a) ?_, LinearForm.within_singleton ?_⟩
      · exact within_operationConstraint (hleft.mono hafter.lt_next) (hright.mono hafter.lt_next)
          hboth.next_le (hafter.lt_next _ hafter.one) a
      · exact after_target (targets_operationComputation left right s.next a)
  | @negation e s s₁ terms he ih =>
      intro known hk
      obtain ⟨cs, hcs, hterms⟩ := ih hk.alloc
      exact ⟨_, .linear hk hcs he.scope_eq (hterms.negate f) ((hterms.negate f).merge f),
        LinearForm.within_singleton (after_target rfl)⟩

theorem LowersAll.adds {es : List Expr} {s s' : State} {ts : List LinearForm}
    (h : LowersAll f es s ts s') : ∀ {known : Nat → Prop}, Knows known s →
      ∃ cs, Adds known s cs s' ∧ ∀ t ∈ ts, t.Within (After known cs) := by
  induction h with
  | nil s => exact fun _ => ⟨[], .refl _, nofun⟩
  | cons h _ ih =>
      intro known hk
      obtain ⟨cs, hcs, ht⟩ := h.adds hk
      obtain ⟨ds, hds, hts⟩ := ih (hk.after hcs h.scope_eq)
      refine ⟨cs ++ ds, hcs.trans hds, ?_⟩
      rw [after_append]
      exact List.forall_mem_cons.mpr ⟨ht.mono fun i hi => .inl hi, hts⟩

/-! ## Statements -/

theorem Equates.adds {l r : Expr} {s s' : State} (h : Equates f l r s s') (hk : Knows known s) :
    ∃ cs, Adds known s cs s' := by
  -- the forms of the sides use what is known, so that they lie below the next index
  have hforms : ∀ {es : List Expr} {ts : List LinearForm} {s₁ : State}, LowersAll f es s ts s₁ →
      ∃ cs, Adds known s cs s₁ ∧ LinearForm.one.Within (· < s₁.next) ∧
        ∀ t ∈ ts, t.Within (· < s₁.next) := by
    intro es ts s₁ h
    obtain ⟨cs, hcs, hts⟩ := h.adds hk
    have hafter := hk.after hcs h.scope_eq
    exact ⟨cs, hcs, LinearForm.within_singleton (hafter.lt_next _ hafter.one),
      fun t ht => (hts t ht).mono hafter.lt_next⟩
  cases h with
  | productLeft h | productRight h =>
      obtain ⟨cs, hcs, -, hts⟩ := hforms h
      obtain ⟨ha, hb, hc, -⟩ := by simpa only [List.forall_mem_cons] using hts
      exact ⟨cs, hcs.emit ha hb hc⟩
  | sumLeft h | sumRight h =>
      obtain ⟨cs, hcs, hone, hts⟩ := hforms h
      obtain ⟨ha, hb, hc, -⟩ := by simpa only [List.forall_mem_cons] using hts
      exact ⟨cs, hcs.emit (within_combine ha hb _) hone hc⟩
  | plain h =>
      obtain ⟨cs, hcs, hone, hts⟩ := hforms h
      obtain ⟨ha, hb, -⟩ := by simpa only [List.forall_mem_cons] using hts
      exact ⟨cs, hcs.emit (ha.append (hb.negate f)) hone (List.forall_mem_nil _)⟩

theorem Materializes.adds {e : Expr} {s s' : State} {i : Nat} (h : Materializes f e s i s')
    (hk : Knows known s) : ∃ cs, Adds known s cs s' ∧ After known cs i := by
  cases h with
  | held h ht =>
      obtain ⟨cs, hcs, hterms⟩ := h.adds hk
      have hheld := hterms.merge f
      rw [ht] at hheld
      exact ⟨cs, hcs, (LinearForm.within_cons.mp hheld).1⟩
  | @stored s₁ t h =>
      obtain ⟨cs, hcs, hterms⟩ := h.adds hk
      have hafter := hk.after hcs h.scope_eq
      have hheld : (t.merge f).Within (After (After known cs) []) :=
        (hterms.merge f).mono fun i hi => .inl hi
      exact ⟨_, hcs.trans (.linear hafter (.refl _) rfl hheld hheld), after_target rfl⟩

theorem Assigns.adds {e : Expr} {s s' : State} (h : Assigns f e s s') (hk : Knows known s) :
    ∃ cs, Adds known s cs s' ∧ After known cs s.next := by
  cases h with
  | operation h =>
      obtain ⟨cs, hcs, ht⟩ := h.adds hk
      exact ⟨cs, hcs, (LinearForm.within_cons.mp ht).1⟩
  | value h =>
      obtain ⟨cs, hcs, ht⟩ := h.adds hk.alloc
      exact ⟨_, .linear hk hcs h.scope_eq ht (ht.merge f), after_target rfl⟩

theorem within_weighted {P : Nat → Prop} {bits : List Nat} (h : ∀ i ∈ bits, P i) :
    (weighted f bits).Within P := by
  intro t ht
  obtain ⟨⟨i, k⟩, hmem, rfl⟩ := List.mem_map.mp ht
  exact h i (List.fst_mem_of_mem_zipIdx hmem)

theorem within_orderForm {P : Nat → Prop} {left right : Nat} (hl : P left) (hr : P right)
    (hone : P oneIndex) (offset : Int) : (orderForm left right offset).Within P := by
  refine LinearForm.Within.append ?_ ?_
  · exact LinearForm.within_cons.mpr ⟨hl, LinearForm.within_singleton hr⟩
  · split
    · exact nofun
    · exact LinearForm.within_singleton hone

/-- **Comparisons.** A comparison fills the index of its difference and then those of the bits. -/
theorem Adds.order {s : State} (hk : Knows known s) {left right : Nat} (hl : known left)
    (hr : known right) (offset : Int) :
    Adds known s [.subtract s.next left right offset,
      .bits s.next (List.range' (s.next + 1) settings.bits) settings.bits]
      (s.order settings left right offset) := by
  have hnext : (s.order settings left right offset).next - s.next = settings.bits + 1 := by
    simp only [State.order]
    omega
  have hlt : ∀ i, known i → i < s.next + 1 + settings.bits := by
    intro i hi
    have := hk.lt_next i hi
    omega
  have htarget : s.next < s.next + 1 + settings.bits := by omega
  have hbits : ∀ i ∈ List.range' (s.next + 1) settings.bits, i < s.next + 1 + settings.bits :=
    fun i hi => (List.mem_range'_1.mp hi).2
  refine ⟨rfl, (Grows.order s left right offset).next_le, ?_, ?_, fun hs => ?_⟩
  · refine ⟨trivial, ?_, List.length_range', ?_, trivial⟩
    · simp only [Computation.sources, List.forall_mem_cons]
      exact ⟨hl, hr, fun i hi => absurd hi List.not_mem_nil⟩
    · exact List.forall_mem_singleton.mpr (.inr (by simp [filled, Computation.targets]))
  · rw [hnext, List.range'_succ]
    simp [filled, Computation.targets]
  · refine List.forall_mem_append.mpr ⟨fun k hk => (hs k hk).mono fun i hi => ?_, fun k hkmem => ?_⟩
    · exact hi.trans_le (Grows.order s left right offset).next_le
    · obtain rfl | ⟨i, hi, rfl⟩ | rfl := mem_orderConstraints.mp hkmem
      -- the equation of the difference, those of the bits, and that of their sum
      · have hform := within_orderForm (P := (· < s.next + 1 + settings.bits)) (hlt left hl)
          (hlt right hr) (hlt _ hk.one) offset
        exact within_linearConstraint hform htarget (hlt _ hk.one)
      · have hbit := (LinearForm.within_singleton (P := (· < s.next + 1 + settings.bits))
          (t := ⟨1, i⟩) (hbits i hi)).merge settings.field
        exact ⟨hbit, hbit, hbit⟩
      · exact within_linearConstraint (within_weighted hbits) htarget (hlt _ hk.one)

/-- A name bound to an index that is known. -/
theorem Knows.bindName {s : State} (h : Knows known s) (n : String) {b : Binding}
    (hb : known b.index) : Knows known (s.bindName n b) :=
  ⟨h.one, List.forall_mem_cons.mpr ⟨hb, h.bound⟩, h.lt_next⟩

/-- A bound name adds nothing to the schedule. -/
theorem Adds.bindName {s s' : State} {cs : List Computation} (h : Adds known s cs s') (n : String)
    (b : Binding) : Adds known s cs (s'.bindName n b) :=
  ⟨h.computations, h.next_le, h.inOrder, h.perm, h.constraints⟩

theorem LowersStatement.adds {statement : Statement} {s s' : State}
    (h : LowersStatement settings statement s s') (hk : Knows known s) :
    ∃ cs, Adds known s cs s' ∧ Knows (After known cs) s' := by
  cases h with
  | equality h =>
      obtain ⟨cs, hcs⟩ := h.adds hk
      exact ⟨cs, hcs, hk.after hcs h.scope_eq⟩
  | @order _ _ _ _ _ strict _ _ s₁ s₂ left right _ ha hb =>
      obtain ⟨cs, hcs, hleft⟩ := ha.adds hk
      have hk₁ := hk.after hcs ha.scope_eq
      obtain ⟨ds, hds, hright⟩ := hb.adds hk₁
      have hk₂ := hk₁.after hds hb.scope_eq
      have horder : Adds _ s₂ _ (s₂.order settings left right (orderOffset strict)) :=
        .order hk₂ (.inl hleft) hright (orderOffset strict)
      have hall := hcs.trans (hds.trans horder)
      exact ⟨_, hall, hk.after hall (hb.scope_eq.trans ha.scope_eq)⟩
  | @truth _ _ _ s₁ t _ h =>
      obtain ⟨cs, hcs, ht⟩ := h.adds hk
      have hafter := hk.after hcs h.scope_eq
      have hone : LinearForm.one.Within (· < s₁.next) :=
        LinearForm.within_singleton (hafter.lt_next _ hafter.one)
      have hemit : Adds known s cs (s₁.emit settings.field t .one .one) :=
        hcs.emit (ht.mono hafter.lt_next) hone hone
      exact ⟨cs, hemit, hk.after hemit h.scope_eq⟩
  | declare _ h | assign _ _ h =>
      obtain ⟨cs, hcs, htarget⟩ := h.adds hk
      exact ⟨cs, hcs.bindName _ _, (hk.after hcs h.scope_eq).bindName _ htarget⟩

theorem adds_of_lowerStatements {statements : List Statement} {s s' : State}
    (h : lowerStatements settings statements s = .ok s') :
    ∀ {known : Nat → Prop}, Knows known s → ∃ cs, Adds known s cs s' ∧ Knows (After known cs) s' := by
  induction statements generalizing s with
  | nil =>
      cases h
      exact fun hk => ⟨[], .refl _, by rwa [after_nil]⟩
  | cons statement rest ih =>
      intro known hk
      obtain ⟨s₁, hstep, hrest⟩ := lowerStatements_cons h
      obtain ⟨cs, hcs, hk₁⟩ := hstep.adds hk
      obtain ⟨ds, hds, hk'⟩ := ih hrest hk₁
      exact ⟨cs ++ ds, hcs.trans hds, by rwa [after_append]⟩

end Lowering

end ArrowCircuit
