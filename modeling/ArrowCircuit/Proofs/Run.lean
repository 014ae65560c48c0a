import ArrowCircuit.Run
import Mathlib.Order.Defs.Unbundled

/-!
# Runs beside runs

A run on a state can be watched by a run on a larger state that has more to tell.  `Tracks` says that
the larger run, seen through a view of its state, is the smaller one, and that the states before and
after it are in a relation.  Both are kept by sequencing where the relation is a preorder, so that they
hold of a program as soon as they hold of what it calls.
-/

namespace ArrowCircuit.Run

variable {σ τ α β ε : Type}

/-! ## Execution -/

theorem exec_ofStep (f : σ → Except Fault α × σ) (s : σ) : (ofStep f).exec s = f s := rfl

theorem exec_get (s : σ) : (get : Run σ σ).exec s = (.ok s, s) := rfl

theorem exec_bind (r : Run σ α) (g : α → Run σ β) (s : σ) :
    (r >>= g).exec s = (ExceptT.bindCont g (r.exec s).1).run (r.exec s).2 :=
  rfl

/-- After a value a run goes on, in the state in which the value has come about. -/
theorem exec_bind_ok {r : Run σ α} {s s' : σ} {a : α} (h : r.exec s = (.ok a, s'))
    (g : α → Run σ β) : (r >>= g).exec s = (g a).exec s' := by
  rw [exec_bind, h]
  rfl

/-- At a fault a run stops. -/
theorem exec_bind_error {r : Run σ α} {s s' : σ} {e : Fault} (h : r.exec s = (.error e, s'))
    (g : α → Run σ β) : (r >>= g).exec s = (.error e, s') := by
  rw [exec_bind, h]
  rfl

/-- Runs that only look at their state. -/
theorem exec_bind_steady {r : Run σ α} {g : α → Run σ β} {s : σ} {x : Except Fault α}
    {y : α → Except Fault β} (hr : r.exec s = (x, s)) (hg : ∀ a, (g a).exec s = (y a, s)) :
    (r >>= g).exec s = (x >>= y, s) := by
  cases x with
  | error e => exact exec_bind_error hr g
  | ok a => exact (exec_bind_ok hr g).trans (hg a)

/-- A run that ends in a fault does so in its first part, or behind the value of that part. -/
theorem fault_of_bind {r : Run σ α} {g : α → Run σ β} {s s' : σ} {e : Fault}
    (h : (r >>= g).exec s = (.error e, s')) :
    r.exec s = (.error e, s') ∨
      ∃ a s₁, r.exec s = (.ok a, s₁) ∧ (g a).exec s₁ = (.error e, s') := by
  rcases hr : r.exec s with ⟨result, s₁⟩
  cases result with
  | error e' =>
      rw [exec_bind_error hr] at h
      cases h
      exact .inl rfl
  | ok a =>
      rw [exec_bind_ok hr] at h
      exact .inr ⟨a, s₁, rfl, h⟩

/-- A run that gives a value has one in both of its parts. -/
theorem value_of_bind {r : Run σ α} {g : α → Run σ β} {s s' : σ} {b : β}
    (h : (r >>= g).exec s = (.ok b, s')) :
    ∃ a s₁, r.exec s = (.ok a, s₁) ∧ (g a).exec s₁ = (.ok b, s') := by
  rcases hr : r.exec s with ⟨result, s₁⟩
  cases result with
  | error e =>
      rw [exec_bind_error hr] at h
      cases h
  | ok a =>
      rw [exec_bind_ok hr] at h
      exact ⟨a, s₁, rfl, h⟩

theorem exec_lift (cause : ε → Fault) (r : Except ε α) (s : σ) :
    (lift cause r).exec s = (r.mapError cause, s) :=
  rfl

theorem exec_map (f : α → β) (r : Run σ α) (s : σ) :
    (f <$> r).exec s = ((r.exec s).1.map f, (r.exec s).2) := by
  rw [map_eq_pure_bind, exec_bind]
  rcases r.exec s with ⟨a | a, s'⟩ <;> rfl

/-! ## Tracked runs -/

/-- From a state on, a run gives what another one gives from the view of the state, ends in a state with
the view in which the other ends, and relates its states before and after. -/
structure Tracks (view : τ → σ) (R : τ → τ → Prop) (w : τ) (r : Run τ α) (q : Run σ α) : Prop where
  exec_view : q.exec (view w) = ((r.exec w).1, view (r.exec w).2)
  related : R w (r.exec w).2

namespace Tracks

variable {view : τ → σ} {R : τ → τ → Prop} {w : τ}

theorem of_exec {r : Run τ α} {q : Run σ α} {result : Except Fault α} {w' : τ}
    (hr : r.exec w = (result, w')) (hq : q.exec (view w) = (result, view w')) (h : R w w') :
    Tracks view R w r q := by
  refine ⟨?_, ?_⟩
  · rw [hq, hr]
  · rw [hr]
    exact h

/-- A run beside itself: only the relation is to be shown. -/
theorem of_related {R : σ → σ → Prop} {s : σ} {r : Run σ α} (h : R s (r.exec s).2) :
    Tracks id R s r r :=
  ⟨rfl, h⟩

/-- A run that looks at its state first. -/
theorem bind_get {g : τ → Run τ β} {h : σ → Run σ β} (hg : Tracks view R w (g w) (h (view w))) :
    Tracks view R w (get >>= g) (get >>= h) := by
  refine ⟨?_, ?_⟩
  · rw [exec_bind_ok (exec_get _), exec_bind_ok (exec_get _)]
    exact hg.exec_view
  · rw [exec_bind_ok (exec_get _)]
    exact hg.related

variable [IsPreorder τ R]

theorem pure (a : α) : Tracks view R w (pure a) (pure a) :=
  ⟨rfl, refl_of R w⟩

theorem lift (cause : ε → Fault) (r : Except ε α) :
    Tracks view R w (Run.lift cause r) (Run.lift cause r) :=
  ⟨rfl, refl_of R w⟩

theorem fault (f : Fault) : Tracks view R w (Run.fault f : Run τ α) (Run.fault f) :=
  ⟨rfl, refl_of R w⟩

/-- What follows a value is tracked from the state in which the value has come about. -/
theorem bind {r : Run τ α} {q : Run σ α} {g : α → Run τ β} {h : α → Run σ β}
    (hr : Tracks view R w r q)
    (hg : ∀ a w', r.exec w = (.ok a, w') → Tracks view R w' (g a) (h a)) :
    Tracks view R w (r >>= g) (q >>= h) := by
  obtain ⟨hview, hrelated⟩ := hr
  rcases hexec : r.exec w with ⟨result, w'⟩
  rw [hexec] at hview hrelated
  cases result with
  | error e =>
      exact .of_exec (exec_bind_error hexec g) (exec_bind_error hview h) hrelated
  | ok a =>
      have hnext := hg a w' hexec
      refine ⟨?_, ?_⟩
      · rw [exec_bind_ok hview h, exec_bind_ok hexec g]
        exact hnext.exec_view
      · rw [exec_bind_ok hexec g]
        exact trans_of R hrelated hnext.related

/-- Where what follows is tracked from every state. -/
theorem bind_any {r : Run τ α} {q : Run σ α} {g : α → Run τ β} {h : α → Run σ β}
    (hr : Tracks view R w r q) (hg : ∀ a w', Tracks view R w' (g a) (h a)) :
    Tracks view R w (r >>= g) (q >>= h) :=
  hr.bind fun a w' _ => hg a w'

theorem map {r : Run τ α} {q : Run σ α} (hr : Tracks view R w r q) (f : α → β) :
    Tracks view R w (f <$> r) (f <$> q) := by
  rw [map_eq_pure_bind, map_eq_pure_bind]
  exact hr.bind_any fun a w' => .pure (f a)

/-- A loop is tracked if each of its rounds is. -/
theorem forIn {xs : List α} {b : β} {f : α → β → Run τ (ForInStep β)}
    {g : α → β → Run σ (ForInStep β)} (h : ∀ a b w', Tracks view R w' (f a b) (g a b)) :
    Tracks view R w (ForIn.forIn xs b f) (ForIn.forIn xs b g) := by
  induction xs generalizing b w with
  | nil => exact .pure b
  | cons x xs ih =>
      rw [List.forIn_cons, List.forIn_cons]
      refine (h x b w).bind_any fun step w' => ?_
      cases step with
      | done b => exact .pure b
      | yield b => exact ih

end Tracks

end ArrowCircuit.Run
