import Mathlib.Data.List.Forall2

/-!
# Outcomes

How computations that may fail are taken apart: a bind that succeeds is a success followed by
another, and a failure stays one whatever follows.
-/

namespace ArrowCircuit

variable {ε α β : Type}

/-- A successful bind is a success followed by another. -/
theorem bind_eq_ok {x : Except ε α} {g : α → Except ε β} {b : β} (h : x >>= g = .ok b) :
    ∃ a, x = .ok a ∧ g a = .ok b := by
  cases x with
  | error e => cases h
  | ok a => exact ⟨a, rfl, h⟩

theorem mapError_eq_ok {ε' : Type} {f : ε → ε'} {x : Except ε α} {a : α}
    (h : x.mapError f = .ok a) : x = .ok a := by
  cases x with
  | error e => cases h
  | ok b =>
      cases h
      rfl

theorem toOption_eq_some {x : Except ε α} {a : α} (h : x.toOption = some a) : x = .ok a := by
  cases x with
  | error e => cases h
  | ok b =>
      cases h
      rfl

/-- A list is read element by element. -/
theorem mapM_eq_ok_iff {g : α → Except ε β} {xs : List α} {ys : List β} :
    xs.mapM g = .ok ys ↔ List.Forall₂ (fun x y => g x = .ok y) xs ys := by
  induction xs generalizing ys with
  | nil =>
      rw [List.mapM_nil, List.forall₂_nil_left_iff]
      constructor
      · rintro ⟨⟩
        rfl
      · rintro rfl
        rfl
  | cons x xs ih =>
      rw [List.mapM_cons, List.forall₂_cons_left_iff]
      constructor
      · intro h
        obtain ⟨y, hy, h⟩ := bind_eq_ok h
        obtain ⟨rest, hrest, h⟩ := bind_eq_ok h
        cases h
        exact ⟨y, rest, hy, ih.mp hrest, rfl⟩
      · rintro ⟨y, rest, hy, hrest, rfl⟩
        rw [hy, ih.mpr hrest]
        rfl

/-- Where the reading of a list fails, that of an element does. -/
theorem exists_of_mapM_eq_error {g : α → Except ε β} {xs : List α} {e : ε}
    (h : xs.mapM g = .error e) : ∃ x ∈ xs, g x = .error e := by
  induction xs with
  | nil => exact nomatch (List.mapM_nil (f := g)).symm.trans h
  | cons x xs ih =>
      rw [List.mapM_cons] at h
      cases hx : g x with
      | error e' =>
          rw [hx] at h
          cases h
          exact ⟨x, List.mem_cons_self, hx⟩
      | ok y =>
          rw [hx] at h
          cases hxs : xs.mapM g with
          | error e' =>
              simp only [bind, Except.bind, hxs] at h
              cases h
              obtain ⟨x', hmem, hx'⟩ := ih hxs
              exact ⟨x', List.mem_cons_of_mem x hmem, hx'⟩
          | ok ys =>
              simp only [bind, Except.bind, hxs] at h
              cases h

theorem mapM_eq_ok_map {g : α → Except ε β} {f : α → β} {xs : List α}
    (h : ∀ x ∈ xs, g x = .ok (f x)) : xs.mapM g = .ok (xs.map f) := by
  rw [mapM_eq_ok_iff, List.forall₂_map_right_iff]
  exact List.forall₂_same.mpr h

theorem exists_forall₂ {R : α → β → Prop} {xs : List α} (h : ∀ x ∈ xs, ∃ y, R x y) :
    ∃ ys, List.Forall₂ R xs ys := by
  induction xs with
  | nil => exact ⟨[], .nil⟩
  | cons x xs ih =>
      obtain ⟨y, hy⟩ := h x List.mem_cons_self
      obtain ⟨ys, hys⟩ := ih fun z hz => h z (List.mem_cons_of_mem x hz)
      exact ⟨y :: ys, .cons hy hys⟩

/-- A list each of whose elements is read, with what is known of the results. -/
theorem exists_mapM_eq_ok {g : α → Except ε β} {R : α → β → Prop} {xs : List α}
    (h : ∀ x ∈ xs, ∃ y, g x = .ok y ∧ R x y) : ∃ ys, xs.mapM g = .ok ys ∧ List.Forall₂ R xs ys := by
  obtain ⟨ys, hys⟩ := exists_forall₂ h
  exact ⟨ys, mapM_eq_ok_iff.mpr (hys.imp fun _ _ hy => hy.1), hys.imp fun _ _ hy => hy.2⟩

/-- A list is read from its places. -/
theorem mapM_range_eq_ok {g : Nat → Except ε β} {ys : List β} {n : Nat} (hn : ys.length = n)
    (h : ∀ (i : Nat) (hi : i < ys.length), g i = .ok ys[i]) : (List.range n).mapM g = .ok ys := by
  rw [mapM_eq_ok_iff, List.forall₂_iff_get]
  refine ⟨by rw [List.length_range, hn], fun i _ hi => ?_⟩
  rw [List.get_eq_getElem, List.getElem_range]
  exact h i hi

/-! ## Properties of outcomes -/

/-- Every value of an outcome has a property. -/
def Yields (Q : α → Prop) (r : Except ε α) : Prop := ∀ a, r = .ok a → Q a

namespace Yields

variable {P : α → Prop} {Q : β → Prop}

theorem ok {a : α} (h : P a) : Yields P (.ok a : Except ε α) := by
  rintro _ ⟨⟩
  exact h

theorem error (e : ε) : Yields P (.error e) := nofun

theorem bind {r : Except ε α} {g : α → Except ε β} (h : Yields P r) (hg : ∀ a, P a → Yields Q (g a)) :
    Yields Q (r >>= g) := by
  intro b hb
  obtain ⟨a, ha, hb⟩ := bind_eq_ok hb
  exact hg a (h a ha) b hb

/-- Where nothing is needed of the first value. -/
theorem bind_any {r : Except ε α} {g : α → Except ε β} (hg : ∀ a, Yields Q (g a)) :
    Yields Q (r >>= g) :=
  .bind (P := fun _ => True) (fun _ _ => trivial) fun a _ => hg a

end Yields

/-- Every fault of an outcome has a property. -/
def Raises (E : ε → Prop) (r : Except ε α) : Prop := ∀ e, r = .error e → E e

namespace Raises

variable {E E' : ε → Prop}

theorem ok (a : α) : Raises E (.ok a) := by
  rintro _ ⟨⟩

theorem error {e : ε} (h : E e) : Raises E (.error e : Except ε α) := by
  rintro _ ⟨⟩
  exact h

theorem mono {r : Except ε α} (h : Raises E r) (himp : ∀ e, E e → E' e) : Raises E' r :=
  fun e he => himp e (h e he)

theorem bind {r : Except ε α} {g : α → Except ε β} (h : Raises E r) (hg : ∀ a, Raises E (g a)) :
    Raises E (r >>= g) := by
  cases r with
  | error e =>
      rintro _ ⟨⟩
      exact h e rfl
  | ok a => exact hg a

end Raises

/-- A property decides an outcome: where it holds there is a value with `Q`, and where it does not
there is a fault with `F`. -/
def Decides (F : ε → Prop) (p : Prop) (Q : α → Prop) (r : Except ε α) : Prop :=
  (p ∧ ∃ a, r = .ok a ∧ Q a) ∨ (¬ p ∧ ∃ e, r = .error e ∧ F e)

namespace Decides

variable {F : ε → Prop} {p q : Prop} {P : α → Prop} {Q : β → Prop}

theorem ok {a : α} (hp : p) (ha : P a) : Decides F p P (.ok a) :=
  .inl ⟨hp, a, rfl, ha⟩

theorem error {e : ε} (hp : ¬ p) (he : F e) : Decides F p P (.error e) :=
  .inr ⟨hp, e, rfl, he⟩

theorem congr {r : Except ε α} (h : Decides F p P r) (hpq : p ↔ q) : Decides F q P r := by
  rwa [← propext hpq]

theorem bind {r : Except ε α} {g : α → Except ε β} (h : Decides F p P r)
    (hg : ∀ a, P a → Decides F q Q (g a)) : Decides F (p ∧ q) Q (r >>= g) := by
  rcases h with ⟨hp, a, rfl, ha⟩ | ⟨hp, e, rfl, he⟩
  · rcases hg a ha with ⟨hq, hb⟩ | ⟨hq, hb⟩
    · exact .inl ⟨⟨hp, hq⟩, hb⟩
    · exact .inr ⟨fun h => hq h.2, hb⟩
  · exact .inr ⟨fun h => hp h.1, e, rfl, he⟩

/-- What follows always succeeds. -/
theorem bind_ok {r : Except ε α} {g : α → Except ε β} (h : Decides F p P r)
    (hg : ∀ a, P a → Decides F True Q (g a)) : Decides F p Q (r >>= g) :=
  (h.bind hg).congr (and_iff_left trivial)

theorem exists_ok_iff {r : Except ε α} (h : Decides F p P r) : (∃ a, r = .ok a) ↔ p := by
  rcases h with ⟨hp, a, rfl, -⟩ | ⟨hp, e, rfl, -⟩
  · exact iff_of_true ⟨a, rfl⟩ hp
  · refine iff_of_false ?_ hp
    rintro ⟨a, ⟨⟩⟩

theorem raises {r : Except ε α} (h : Decides F p P r) : Raises F r := by
  rcases h with ⟨-, a, rfl, -⟩ | ⟨-, e, rfl, he⟩
  · exact .ok a
  · exact .error he

end Decides

/-- An outcome without a value. -/
def Fails (r : Except ε α) : Prop := ∃ e, r = .error e

theorem Fails.bind {r : Except ε α} (h : Fails r) (g : α → Except ε β) : Fails (r >>= g) := by
  obtain ⟨e, rfl⟩ := h
  exact ⟨e, rfl⟩

theorem Fails.ne_ok {r : Except ε α} (h : Fails r) (a : α) : r ≠ .ok a := by
  obtain ⟨e, rfl⟩ := h
  exact nofun

theorem fails_iff_not_exists_ok {r : Except ε α} : Fails r ↔ ¬ ∃ a, r = .ok a := by
  cases r with
  | error e => exact ⟨fun _ => nofun, fun _ => ⟨e, rfl⟩⟩
  | ok a => exact ⟨fun h => absurd rfl (h.ne_ok a), fun h => absurd ⟨a, rfl⟩ h⟩

end ArrowCircuit
