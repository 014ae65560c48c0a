import ArrowCircuit.Proofs.Constraint.LinearForm
import Mathlib.Data.List.Induction

/-!
# The normal form of linear forms

Merging has a closed form: each index, at the place of its first occurrence, with the reduced sum of its
coefficients, less the sums that are zero (`merge_eq`).  The order matters, since keys are derived from
the constraints term by term.  An index whose coefficients cancel keeps its place while terms are added,
so that it comes back there and not at the end.

What merging leaves is normal (`IsNormal`), and what is normal stays as it is (`IsNormal.merge_eq_self`).
-/

namespace ArrowCircuit

namespace LinearForm

/-! ## First occurrences -/

theorem eraseDups_concat (is : List Nat) (i : Nat) :
    (is ++ [i]).eraseDups = if i ∈ is then is.eraseDups else is.eraseDups ++ [i] := by
  rw [List.eraseDups_append]
  by_cases h : i ∈ is
  · simp [List.removeAll, h]
  · simp [List.removeAll, h, List.eraseDups_cons]

/-- Without its repetitions, a list is in the order of the first occurrences. -/
theorem pairwise_idxOf_eraseDups (is : List Nat) :
    is.eraseDups.Pairwise fun i j => is.idxOf i < is.idxOf j := by
  induction is using List.reverseRecOn with
  | nil => exact .nil
  | append_singleton is i ih =>
      -- the places of earlier indices do not change
      have hold : is.eraseDups.Pairwise fun j k => (is ++ [i]).idxOf j < (is ++ [i]).idxOf k := by
        refine ih.imp_of_mem ?_
        intro j k hj hk hlt
        rwa [List.idxOf_append_of_mem (List.mem_eraseDups.mp hj),
          List.idxOf_append_of_mem (List.mem_eraseDups.mp hk)]
      rw [eraseDups_concat]
      by_cases h : i ∈ is
      · rwa [if_pos h]
      · rw [if_neg h]
        refine List.pairwise_append.mpr ⟨hold, List.pairwise_singleton _ _, ?_⟩
        intro j hj k hk
        have hj := List.mem_eraseDups.mp hj
        rw [List.mem_singleton.mp hk, List.idxOf_append_of_mem hj, List.idxOf_append_of_notMem h]
        have hlt := List.idxOf_lt_length_of_mem hj
        omega

theorem nodup_eraseDups (is : List Nat) : is.eraseDups.Nodup :=
  (pairwise_idxOf_eraseDups is).imp fun hlt heq => by
    rw [heq] at hlt
    omega

/-! ## The closed form -/

/-- The indices of a form, as they come. -/
def indices (terms : LinearForm) : List Nat := terms.map (·.index)

/-- The sum of the coefficients of an index. -/
def coefficientAt (terms : LinearForm) (i : Nat) : Int :=
  ((terms.filter (·.index = i)).map (·.coefficient)).sum

theorem coefficientAt_concat (terms : LinearForm) (t : LinearTerm) (i : Nat) :
    coefficientAt (terms ++ [t]) i =
      coefficientAt terms i + if t.index = i then t.coefficient else 0 := by
  by_cases h : t.index = i
  · simp [coefficientAt, h]
  · simp [coefficientAt, h]

theorem coefficientAt_of_notMem {terms : LinearForm} {i : Nat} (h : i ∉ terms.indices) :
    coefficientAt terms i = 0 := by
  have hnone : terms.filter (·.index = i) = [] := by
    rw [List.filter_eq_nil_iff]
    intro t ht hindex
    exact h (List.mem_map.mpr ⟨t, ht, of_decide_eq_true hindex⟩)
  rw [coefficientAt, hnone]
  rfl

variable (f : PrimeField)

/-- A new index goes to the end. -/
theorem addTerm_of_notMem (c : Int) {i : Nat} {terms : LinearForm} (h : i ∉ terms.indices) :
    addTerm f c i terms = terms ++ [⟨f.reduce c, i⟩] := by
  induction terms with
  | nil => rfl
  | cons t rest ih =>
      simp only [indices, List.map_cons, List.mem_cons, not_or] at h
      rw [addTerm, if_neg fun heq => h.1 heq.symm, ih h.2, List.cons_append]

/-- The terms of given indices. -/
def ofIndices (is : List Nat) (g : Nat → Int) : LinearForm := is.map fun i => ⟨g i, i⟩

@[simp] theorem ofIndices_cons (i : Nat) (is : List Nat) (g : Nat → Int) :
    ofIndices (i :: is) g = ⟨g i, i⟩ :: ofIndices is g := rfl

@[simp] theorem ofIndices_concat (is : List Nat) (i : Nat) (g : Nat → Int) :
    ofIndices (is ++ [i]) g = ofIndices is g ++ [⟨g i, i⟩] :=
  List.map_append

@[simp] theorem indices_ofIndices (is : List Nat) (g : Nat → Int) : (ofIndices is g).indices = is := by
  rw [ofIndices, indices, List.map_map]
  exact List.map_id is

theorem ofIndices_congr {is : List Nat} {g g' : Nat → Int} (h : ∀ i ∈ is, g i = g' i) :
    ofIndices is g = ofIndices is g' :=
  List.map_congr_left fun i hi => by rw [h i hi]

/-- A known index is added to where it stands. -/
theorem addTerm_of_mem (c : Int) {i : Nat} {is : List Nat} (hnodup : is.Nodup) (h : i ∈ is)
    (g : Nat → Int) : addTerm f c i (ofIndices is g) =
      ofIndices is fun j => if j = i then f.reduce (g i + c) else g j := by
  induction is with
  | nil => exact absurd h List.not_mem_nil
  | cons j rest ih =>
      obtain ⟨hhead, hrest⟩ := List.nodup_cons.mp hnodup
      rw [ofIndices_cons, ofIndices_cons, addTerm]
      by_cases hj : j = i
      · -- the indices behind it are others
        have hothers : ofIndices rest g =
            ofIndices rest fun k => if k = i then f.reduce (g i + c) else g k := by
          refine ofIndices_congr ?_
          intro k hk
          have hne : k ≠ i := by
            rintro rfl
            exact hhead (hj ▸ hk)
          rw [if_neg hne]
        rw [if_pos hj, if_pos hj, ← hothers, hj]
      · have hi : i ∈ rest := (List.mem_cons.mp h).resolve_left fun heq => hj heq.symm
        rw [if_neg hj, if_neg hj, ih hrest hi]

/-- What is collected before the zeros are dropped. -/
theorem foldl_addTerm_eq (terms : LinearForm) :
    terms.foldl (fun acc t => addTerm f t.coefficient t.index acc) [] =
      ofIndices terms.indices.eraseDups fun i => f.reduce (coefficientAt terms i) := by
  induction terms using List.reverseRecOn with
  | nil => rfl
  | append_singleton terms t ih =>
      have hindices : indices (terms ++ [t]) = indices terms ++ [t.index] := List.map_append
      rw [List.foldl_append, ih, hindices, eraseDups_concat, List.foldl_cons, List.foldl_nil]
      by_cases h : t.index ∈ indices terms
      · rw [if_pos h, addTerm_of_mem f _ (nodup_eraseDups _) (List.mem_eraseDups.mpr h)]
        refine ofIndices_congr ?_
        intro i _
        rw [coefficientAt_concat]
        by_cases hi : i = t.index
        · rw [if_pos hi, if_pos hi.symm, hi]
          exact Int.emod_add_emod _ _ _
        · rw [if_neg hi, if_neg fun heq => hi heq.symm, Int.add_zero]
      · have hnew : t.index ∉ indices (ofIndices (indices terms).eraseDups fun i =>
            f.reduce (coefficientAt terms i)) := by
          rw [indices_ofIndices, List.mem_eraseDups]
          exact h
        -- the sums of the other indices do not change
        have hothers : ofIndices (indices terms).eraseDups (fun i => f.reduce (coefficientAt terms i)) =
            ofIndices (indices terms).eraseDups fun i =>
              f.reduce (coefficientAt (terms ++ [t]) i) := by
          refine ofIndices_congr ?_
          intro i hi
          have hne : t.index ≠ i := by
            rintro rfl
            exact h (List.mem_eraseDups.mp hi)
          rw [coefficientAt_concat, if_neg hne, Int.add_zero]
        rw [if_neg h, addTerm_of_notMem f _ hnew, ofIndices_concat, hothers, coefficientAt_concat,
          if_pos rfl, coefficientAt_of_notMem h, Int.zero_add]

/-- **The closed form of merging.** -/
theorem merge_eq (terms : LinearForm) :
    terms.merge f = (ofIndices terms.indices.eraseDups fun i =>
      f.reduce (coefficientAt terms i)).filter (·.coefficient ≠ 0) := by
  rw [merge, foldl_addTerm_eq]

/-! ## What merging leaves -/

/-- The indices that are left are in the order of their first occurrences. -/
theorem pairwise_idxOf_merge (terms : LinearForm) :
    (terms.merge f).indices.Pairwise fun i j => terms.indices.idxOf i < terms.indices.idxOf j := by
  have hall := pairwise_idxOf_eraseDups terms.indices
  rw [← indices_ofIndices terms.indices.eraseDups fun i => f.reduce (coefficientAt terms i)] at hall
  rw [merge_eq]
  exact hall.sublist (List.filter_sublist.map _)

/-- An index is left exactly if its coefficients do not add up to zero. -/
theorem mem_indices_merge {terms : LinearForm} {i : Nat} :
    i ∈ (terms.merge f).indices ↔ f.reduce (coefficientAt terms i) ≠ 0 := by
  rw [merge_eq, indices, List.mem_map]
  constructor
  · rintro ⟨t, ht, rfl⟩
    obtain ⟨hmem, hne⟩ := List.mem_filter.mp ht
    obtain ⟨j, -, rfl⟩ := List.mem_map.mp hmem
    exact of_decide_eq_true hne
  · intro hne
    -- an index that does not occur has no coefficients
    have hmem : i ∈ terms.indices := by
      by_contra h
      rw [coefficientAt_of_notMem h] at hne
      exact hne (Int.zero_emod _)
    exact ⟨_, List.mem_filter.mpr ⟨List.mem_map.mpr ⟨i, List.mem_eraseDups.mpr hmem, rfl⟩,
      decide_eq_true hne⟩, rfl⟩

/-- A form in normal form: one term for each index, with a reduced coefficient other than zero. -/
structure IsNormal (terms : LinearForm) : Prop extends IsMerged f terms where
  nonzero : ∀ t ∈ terms, t.coefficient ≠ 0

theorem isNormal_merge [NeZero f.modulus] (terms : LinearForm) : IsNormal f (terms.merge f) where
  toIsMerged := isMerged_merge terms
  nonzero _ ht := of_decide_eq_true (List.mem_filter.mp ht).2

variable {f}

theorem IsNormal.coefficient_bounds {terms : LinearForm} (h : IsNormal f terms) {t : LinearTerm}
    (ht : t ∈ terms) : 1 ≤ t.coefficient ∧ t.coefficient ≤ (f.modulus : Int) - 1 := by
  obtain ⟨hnonneg, hlt⟩ := h.canonical t ht
  have hne := h.nonzero t ht
  omega

/-- A merged form is collected as it is. -/
theorem IsMerged.foldl_addTerm_eq_self {terms : LinearForm} (h : IsMerged f terms) :
    terms.foldl (fun acc t => LinearForm.addTerm f t.coefficient t.index acc) [] = terms := by
  induction terms using List.reverseRecOn with
  | nil => rfl
  | append_singleton terms t ih =>
      obtain ⟨hnodup, hcanonical⟩ := h
      obtain ⟨hfront, hlast⟩ := List.forall_mem_append.mp hcanonical
      rw [List.map_append, List.nodup_append] at hnodup
      obtain ⟨hnodup, -, hnew⟩ := hnodup
      have hnew : t.index ∉ indices terms := fun hmem =>
        hnew t.index hmem t.index List.mem_cons_self rfl
      rw [List.foldl_append, ih ⟨hnodup, hfront⟩, List.foldl_cons, List.foldl_nil,
        addTerm_of_notMem f _ hnew, f.reduce_of_canonical (hlast t List.mem_cons_self)]

/-- **Normal forms.** What is normal stays as it is. -/
theorem IsNormal.merge_eq_self {terms : LinearForm} (h : IsNormal f terms) : terms.merge f = terms := by
  rw [merge, h.foldl_addTerm_eq_self, List.filter_eq_self]
  intro t ht
  exact decide_eq_true (h.nonzero t ht)

end LinearForm

/-! ## The forms of a system -/

/-- The forms of a constraint. -/
def Constraint.forms (k : Constraint) : List LinearForm := [k.a, k.b, k.c]

/-- The forms of a computation. -/
def Computation.forms : Computation → List LinearForm
  | .linear _ terms => [terms]
  | .product _ left right => [left, right]
  | .quotient _ numerator denominator => [numerator, denominator]
  | .subtract .. | .bits .. | .unknown _ => []

/-- All forms of a list are normal. -/
def AllNormal (f : PrimeField) (forms : List LinearForm) : Prop := ∀ t ∈ forms, t.IsNormal f

/-- Forms that have been merged are normal. -/
theorem allNormal_map_merge (f : PrimeField) [NeZero f.modulus] (forms : List LinearForm) :
    AllNormal f (forms.map (·.merge f)) := by
  intro t ht
  obtain ⟨terms, -, rfl⟩ := List.mem_map.mp ht
  exact LinearForm.isNormal_merge f terms

end ArrowCircuit
