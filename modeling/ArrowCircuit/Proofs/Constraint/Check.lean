import ArrowCircuit.Proofs.Constraint.Qap
import Mathlib.Data.List.GetD

/-!
# Dense and sparse checks agree

A system is checked at once over dense rows, whose entries are reduced after each addition and whose
inner products with the witness are not reduced at all, and constraint by constraint over the terms.
Both compute one residue for each constraint (`residual_eq_dense`), so the positions that the first
check reports are those at which the second one does not give zero.  The entries are reduced modulo the
scalar modulus in every check, so a check modulo another number `p` sees the constraints that the rows
show modulo `p` (`Constraint.Renders`).
-/

namespace ArrowCircuit

/-! ## Positions of nonzero entries -/

theorem mem_nonzero_positions {zs : List Int} {i : Nat} :
    i ∈ (zs.zipIdx.filter (·.1 ≠ 0)).map (·.2) ↔ ∃ z, zs[i]? = some z ∧ z ≠ 0 := by
  simp only [List.mem_map, List.mem_filter, decide_eq_true_eq]
  constructor
  · rintro ⟨⟨z, j⟩, ⟨hmem, hz⟩, rfl⟩
    exact ⟨z, List.mem_zipIdx_iff_getElem?.mp hmem, hz⟩
  · rintro ⟨z, hi, hz⟩
    exact ⟨(z, i), ⟨List.mem_zipIdx_iff_getElem?.mpr hi, hz⟩, rfl⟩

theorem pairwise_nonzero_positions (zs : List Int) :
    ((zs.zipIdx.filter (·.1 ≠ 0)).map (·.2)).Pairwise (· < ·) := by
  have hall : (zs.zipIdx.map (·.2)).Pairwise (· < ·) := by
    rw [List.zipIdx_map_snd]
    exact List.pairwise_lt_range'
  exact hall.sublist (List.filter_sublist.map _)

namespace ConstraintSystem

variable {s : ConstraintSystem} {w : Assignment}

/-! ## The witness as a vector -/

/-- The values of a full witness, as they are. -/
theorem exists_witnessVector (hfull : ∀ i < s.numWitnesses, (w.get? i).isSome) :
    ∃ ws, s.witnessVector w = .ok ws ∧ ws.length = s.numWitnesses ∧
      ∀ i < s.numWitnesses, w.get? i = some (ws.getD i 0) := by
  refine ⟨(List.range s.numWitnesses).map fun i => (w.get? i).getD 0, ?_, ?_, fun i hi => ?_⟩
  · refine mapM_eq_ok_map fun i hi => ?_
    obtain ⟨v, hv⟩ := Option.isSome_iff_exists.mp (hfull i (List.mem_range.mp hi))
    rw [hv]
    rfl
  · rw [List.length_map, List.length_range]
  · obtain ⟨v, hv⟩ := Option.isSome_iff_exists.mp (hfull i hi)
    rw [List.getD_eq_getElem _ _ (by rwa [List.length_map, List.length_range]), List.getElem_map,
      List.getElem_range, hv, Option.getD_some]

end ConstraintSystem

/-! ## Rows modulo another number -/

/-- A row of `n` entries whose inner products are, modulo `p`, the values of a form. -/
structure IsDenseModulo (p n : Nat) (terms : LinearForm) (row : List Int) : Prop where
  length_eq : row.length = n
  intCast_dot_eq : ∀ ws : List Int, ws.length = n → ((dot row ws : Int) : ZMod p) =
    terms.value fun i => ((ws.getD i 0 : Int) : ZMod p)

/-- The dense row of a form has, modulo `p`, the inner products of the form `shown`. -/
def LinearForm.Renders (p n : Nat) (terms shown : LinearForm) : Prop :=
  ∃ row, terms.denseRow scalarModulus n = .ok row ∧ IsDenseModulo p n shown row

/-- The dense rows of a constraint have, modulo `p`, the inner products of the constraint `shown`. -/
structure Constraint.Renders (p n : Nat) (c shown : Constraint) : Prop where
  a : c.a.Renders p n shown.a
  b : c.b.Renders p n shown.b
  c : c.c.Renders p n shown.c

/-- Modulo the scalar modulus every form is shown as it is. -/
theorem LinearForm.renders_self {n : Nat} {terms : LinearForm} (h : terms.Below n) :
    terms.Renders scalarModulus n terms := by
  obtain ⟨row, hrow, hdense⟩ := denseRow_eq h
  exact ⟨row, hrow, hdense.length_eq, hdense.intCast_dot_eq⟩

/-! ## Residuals -/

section Residuals

variable {p n : Nat} {w : Assignment} {ws : List Int}

theorem coversConstraint_of_below {c : Constraint}
    (hbelow : c.a.Below n ∧ c.b.Below n ∧ c.c.Below n) (hfull : ∀ i < n, (w.get? i).isSome) :
    w.CoversConstraint c :=
  ⟨fun t ht => hfull _ (hbelow.1 t ht), fun t ht => hfull _ (hbelow.2.1 t ht),
    fun t ht => hfull _ (hbelow.2.2 t ht)⟩

/-- The inner product of a dense row and the values of a witness. -/
theorem IsDenseModulo.intCast_dot_witness {terms : LinearForm} {row : List Int}
    (hrow : IsDenseModulo p n terms row) (hbelow : terms.Below n) (hlength : ws.length = n)
    (hws : ∀ i < n, w.get? i = some (ws.getD i 0)) :
    ((dot row ws : Int) : ZMod p) = terms.value (w.residue p) := by
  rw [hrow.intCast_dot_eq ws hlength]
  exact LinearForm.value_congr fun t ht =>
    (Assignment.residue_of_get? (hws t.index (hbelow t ht))).symm

/-- **One constraint.** The residual over dense rows is the one over the terms that they show. -/
theorem residual_eq_dense [NeZero p] {c : Constraint} {a b d : List Int}
    (ha : IsDenseModulo p n c.a a) (hb : IsDenseModulo p n c.b b) (hd : IsDenseModulo p n c.c d)
    (hbelow : c.a.Below n ∧ c.b.Below n ∧ c.c.Below n) (hfull : ∀ i < n, (w.get? i).isSome)
    (hlength : ws.length = n) (hws : ∀ i < n, w.get? i = some (ws.getD i 0)) :
    c.residual p w = .ok ((dot a ws * dot b ws - dot d ws) % (p : Int)) := by
  rw [Constraint.residual_of_covers (coversConstraint_of_below hbelow hfull), emod_eq_val]
  push_cast
  rw [ha.intCast_dot_witness hbelow.1 hlength hws, hb.intCast_dot_witness hbelow.2.1 hlength hws,
    hd.intCast_dot_witness hbelow.2.2 hlength hws]

end Residuals

namespace ConstraintSystem

variable {s : ConstraintSystem} {w : Assignment}

theorem getElem?_residuals {residual : Constraint → Except CheckFault Int} {cs : List Constraint}
    {rs : List Int} (hrs : List.Forall₂ (fun c r => residual c = .ok r) cs rs) (i : Nat) (r : Int) :
    rs[i]? = some r ↔ ∃ c, cs[i]? = some c ∧ residual c = .ok r := by
  induction hrs generalizing i with
  | nil => simp
  | cons h _ ih =>
      cases i with
      | zero => simp [h]
      | succ i => simpa using ih i

/-- **All constraints.** What the dense check modulo `p` reports are the places of the nonzero
residuals of the constraints that the rows show. -/
theorem exists_residuals_of_renders {p : Nat} [NeZero p] (shown : Constraint → Constraint)
    (hrows : ∀ c ∈ s.constraints, c.Renders p s.numWitnesses (shown c))
    (hbelow : ∀ c ∈ s.constraints, (shown c).a.Below s.numWitnesses ∧
      (shown c).b.Below s.numWitnesses ∧ (shown c).c.Below s.numWitnesses)
    (hfull : ∀ i < s.numWitnesses, (w.get? i).isSome) :
    ∃ rs, List.Forall₂ (fun c r => (shown c).residual p w = .ok r) s.constraints rs ∧
      s.unsatisfied p w = .ok ((rs.zipIdx.filter (·.1 ≠ 0)).map (·.2)) := by
  obtain ⟨a, ha, hda⟩ := exists_mapM_eq_ok fun c hc => (hrows c hc).a
  obtain ⟨b, hb, hdb⟩ := exists_mapM_eq_ok fun c hc => (hrows c hc).b
  obtain ⟨d, hd, hdd⟩ := exists_mapM_eq_ok fun c hc => (hrows c hc).c
  obtain ⟨ws, hvector, hlength, hws⟩ := exists_witnessVector hfull
  refine ⟨(a.zip (b.zip d)).map fun r =>
    (dot r.1 ws * dot r.2.1 ws - dot r.2.2 ws) % (p : Int), ?_, ?_⟩
  · rw [List.forall₂_iff_get] at hda hdb hdd ⊢
    have hcount : (a.zip (b.zip d)).length = s.constraints.length := by
      simp only [List.length_zip, ← hda.1, ← hdb.1, ← hdd.1, Nat.min_self]
    refine ⟨by rw [List.length_map, hcount], fun i hi hrow => ?_⟩
    simp only [List.get_eq_getElem, List.getElem_map, List.getElem_zip] at hda hdb hdd ⊢
    exact residual_eq_dense (hda.2 i hi (hda.1 ▸ hi)) (hdb.2 i hi (hdb.1 ▸ hi))
      (hdd.2 i hi (hdd.1 ▸ hi)) (hbelow _ (List.getElem_mem hi)) hfull hlength hws
  · rw [unsatisfied]
    split
    · rename_i hempty
      have hnil : s.constraints = [] := List.isEmpty_iff.mp hempty
      rw [hnil, List.forall₂_nil_left_iff] at hda
      rw [hda]
      rfl
    · simp only [denseRows, ha, hb, hd, hvector]
      rfl

/-! ## Reports -/

/-- The check modulo `p` reports, in increasing order, the positions at which the constraints that are
shown have a residual other than zero. -/
def Reports (s : ConstraintSystem) (p : Nat) (w : Assignment) (shown : Constraint → Constraint) :
    Prop :=
  (∀ c ∈ s.constraints, ∃ r, (shown c).residual p w = .ok r) ∧
    ∃ violated, s.unsatisfied p w = .ok violated ∧ violated.Pairwise (· < ·) ∧
      ∀ i, i ∈ violated ↔ ∃ c r, s.constraints[i]? = some c ∧ (shown c).residual p w = .ok r ∧ r ≠ 0

section Reports

variable {p : Nat} {shown : Constraint → Constraint}

theorem reports_of_renders [NeZero p]
    (hrows : ∀ c ∈ s.constraints, c.Renders p s.numWitnesses (shown c))
    (hbelow : ∀ c ∈ s.constraints, (shown c).a.Below s.numWitnesses ∧
      (shown c).b.Below s.numWitnesses ∧ (shown c).c.Below s.numWitnesses)
    (hfull : ∀ i < s.numWitnesses, (w.get? i).isSome) : s.Reports p w shown := by
  obtain ⟨rs, hrs, hunsatisfied⟩ := exists_residuals_of_renders shown hrows hbelow hfull
  refine ⟨fun c hc => ⟨_, Constraint.residual_of_covers (coversConstraint_of_below (hbelow c hc) hfull)⟩,
    _, hunsatisfied, pairwise_nonzero_positions rs, fun i => ?_⟩
  rw [mem_nonzero_positions]
  constructor
  · rintro ⟨r, hi, hr⟩
    obtain ⟨c, hc, hresidual⟩ := (getElem?_residuals hrs i r).mp hi
    exact ⟨c, r, hc, hresidual, hr⟩
  · rintro ⟨c, r, hc, hresidual, hr⟩
    exact ⟨r, (getElem?_residuals hrs i r).mpr ⟨c, hc, hresidual⟩, hr⟩

theorem Reports.congr {shown' : Constraint → Constraint} (h : s.Reports p w shown)
    (heq : ∀ c ∈ s.constraints, shown c = shown' c) : s.Reports p w shown' := by
  obtain ⟨hdefined, violated, hviolated, hsorted, hmem⟩ := h
  refine ⟨fun c hc => heq c hc ▸ hdefined c hc, violated, hviolated, hsorted, fun i => ?_⟩
  rw [hmem]
  refine exists_congr fun c => exists_congr fun r => and_congr_right fun hc => ?_
  rw [heq c (List.mem_of_getElem? hc)]

/-- A witness is accepted exactly if its first value is one and nothing is reported. -/
theorem Reports.exists_isSatisfied (h : s.Reports p w shown) :
    ∃ satisfied, s.isSatisfied p w = .ok satisfied ∧ (satisfied = true ↔
      w.get? oneIndex = some 1 ∧ ∀ c ∈ s.constraints, (shown c).residual p w = .ok 0) := by
  obtain ⟨hdefined, violated, hviolated, -, hmem⟩ := h
  have hempty : violated = [] ↔ ∀ c ∈ s.constraints, (shown c).residual p w = .ok 0 := by
    rw [List.eq_nil_iff_forall_not_mem]
    constructor
    · intro hnone c hc
      obtain ⟨r, hr⟩ := hdefined c hc
      obtain ⟨i, hi⟩ := List.mem_iff_getElem?.mp hc
      have hzero : r = 0 := by
        by_contra hne
        exact hnone i ((hmem i).mpr ⟨c, r, hi, hr, hne⟩)
      rw [hr, hzero]
    · intro hzero i hi
      obtain ⟨c, r, hc, hr, hne⟩ := (hmem i).mp hi
      rw [hzero c (List.mem_of_getElem? hc)] at hr
      exact hne (Except.ok.inj hr).symm
  rw [isSatisfied, hviolated, ← hempty]
  by_cases hone : w.get? oneIndex = some 1
  · rw [if_pos hone]
    exact ⟨violated.isEmpty, rfl, List.isEmpty_iff.trans (and_iff_right hone).symm⟩
  · rw [if_neg hone]
    exact ⟨false, rfl, iff_of_false Bool.false_ne_true fun h => hone h.1⟩

theorem Reports.isSatisfied_iff (h : s.Reports p w shown) :
    s.isSatisfied p w = .ok true ↔
      w.get? oneIndex = some 1 ∧ ∀ c ∈ s.constraints, (shown c).residual p w = .ok 0 := by
  obtain ⟨satisfied, hsatisfied, hiff⟩ := h.exists_isSatisfied
  rw [hsatisfied, Except.ok.injEq, hiff]

end Reports

/-- **Agreement.** For any system whose terms lie below the witness, with coefficients of any sign and
size and with repeated indices, and any full witness: each constraint has a residual, the dense check
reports the positions of those that are not zero, in increasing order, and the witness is accepted
exactly if its first value is one and all residuals are zero. -/
theorem dense_check_iff_residuals (s : ConstraintSystem) (w : Assignment)
    (hbelow : ∀ c ∈ s.constraints, c.a.Below s.numWitnesses ∧ c.b.Below s.numWitnesses ∧
      c.c.Below s.numWitnesses)
    (hfull : ∀ i < s.numWitnesses, (w.get? i).isSome) :
    (∀ c ∈ s.constraints, ∃ r, c.residual scalarModulus w = .ok r) ∧
      (∃ violated, s.unsatisfied scalarModulus w = .ok violated ∧ violated.Pairwise (· < ·) ∧
        ∀ i, i ∈ violated ↔ ∃ c r, s.constraints[i]? = some c ∧
          c.residual scalarModulus w = .ok r ∧ r ≠ 0) ∧
      ∃ satisfied, s.isSatisfied scalarModulus w = .ok satisfied ∧
        (satisfied = true ↔ w.get? 0 = some 1 ∧
          ∀ c ∈ s.constraints, c.residual scalarModulus w = .ok 0) := by
  have hreports : s.Reports scalarModulus w id := by
    refine reports_of_renders (fun c hc => ?_) hbelow hfull
    obtain ⟨ha, hb, hc⟩ := hbelow c hc
    exact ⟨LinearForm.renders_self ha, LinearForm.renders_self hb, LinearForm.renders_self hc⟩
  exact ⟨hreports.1, hreports.2, hreports.exists_isSatisfied⟩

/-- One constraint `(-w₁ - w₁) * w₁ = 2 w₁` with a repeated index, a negative coefficient and one that
is not reduced, and one that says `w₁ = 0`. -/
def repeatedSystem : ConstraintSystem where
  numWitnesses := 2
  publicInputs := []
  privateInputs := [1]
  constraints := [⟨[⟨-1, 1⟩, ⟨-1, 1⟩], LinearForm.single 1, [⟨scalarModulus + 2, 1⟩]⟩,
    ⟨LinearForm.single 1, LinearForm.one, []⟩]
  computations := []

/-- At `w₁ = -1` the first constraint holds and the second one does not. -/
theorem dense_check_repeated :
    ∃ violated, repeatedSystem.unsatisfied scalarModulus (.ofList [1, -1]) = .ok violated ∧
      violated.Pairwise (· < ·) ∧ 0 ∉ violated ∧ 1 ∈ violated := by
  obtain ⟨-, ⟨violated, hviolated, hsorted, hmem⟩, -⟩ :=
    dense_check_iff_residuals repeatedSystem (.ofList [1, -1]) (by decide) (by decide)
  refine ⟨violated, hviolated, hsorted, ?_, ?_⟩
  · rw [hmem]
    rintro ⟨c, r, hc, hr, hne⟩
    cases hc
    have hzero : (⟨[⟨-1, 1⟩, ⟨-1, 1⟩], LinearForm.single 1, [⟨scalarModulus + 2, 1⟩]⟩ :
      Constraint).residual scalarModulus (.ofList [1, -1]) = .ok 0 := by decide
    exact hne (Except.ok.inj (hr.symm.trans hzero))
  · rw [hmem]
    exact ⟨_, scalarModulus - 1, rfl, by decide, by decide⟩

end ConstraintSystem

end ArrowCircuit
