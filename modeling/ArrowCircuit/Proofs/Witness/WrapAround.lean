import ArrowCircuit.Proofs.Witness.Exactness

/-!
# Orders that hold only in the field

Generation compares representatives, the constraints compare in the field: there the difference of
two sides is seen modulo the modulus.  An order whose difference is negative but within `2 ^ bits` of
the negated modulus wraps around.  Generation refuses it, and the constraints accept it.
-/

namespace ArrowCircuit.Witness

open Lowering

variable {f : PrimeField} [Fact f.modulus.Prime] {bits : Nat} {c : Circuit} {s : State}

/-- What satisfies a circuit without division meets its demands in the field. -/
theorem demands_of_satisfying (hdiv : c.DivisionFree)
    (hs : lowerStatements ⟨f, bits⟩ c.statements (paramState c) = .ok s) {w : Assignment}
    (hone : w.get? oneIndex = some 1)
    (hsat : ∀ k ∈ s.constraints, k.residual f.modulus w = .ok 0) :
    ∃ env ds, Reference.run c.statements ((paramState c).env (w.residue f.modulus)) =
        .ok (env, ds) ∧ ∀ d ∈ ds, d.Met ∧ d.FitsField bits := by
  have hquotient : ∀ t num den, .quotient t num den ∉ s.computations := by
    intro t num den hmem
    rcases keepsQuotients_of_lowerStatements hs t num den hmem with hmem | ⟨statement, hin, hd⟩
    · rw [paramState_eq] at hmem
      cases hmem
    · exact hdiv statement hin hd
  have hw : Satisfies (w.residue f.modulus) s := satisfies_of_residual hsat
    fun t num den hmem => absurd hmem (hquotient t num den)
  have hw₀ : w.residue f.modulus oneIndex = 1 := by
    rw [Assignment.residue_of_get? hone, Int.cast_one]
  obtain ⟨ds, hrun, hds⟩ := run_eq_of_lowerStatements hw₀ hs hw
  exact ⟨_, ds, hrun, hds⟩

/-- The parameters of an assignment have these values. -/
def HasInputs (c : Circuit) (w : Assignment) (xs : List (ZMod f.modulus)) : Prop :=
  (List.range' 1 c.paramNames.length).map (w.residue f.modulus) = xs

/-- Where every demand is met in the field there is an assignment that satisfies the circuit. -/
theorem exists_satisfying (hs : lowerStatements ⟨f, bits⟩ c.statements (paramState c) = .ok s)
    {privateValues publicValues : List Value}
    (hlen : privateValues.length = c.privateParams.length)
    (hlen' : publicValues.length = c.publicParams.length) {xs ys : List (ZMod f.modulus)}
    (hxs : Reads f privateValues xs) (hys : Reads f publicValues ys)
    {env : Reference.Env (ZMod f.modulus)} {ds : List (Reference.Demand (ZMod f.modulus))}
    (hrun : Reference.run c.statements (c.paramEnv (xs ++ ys)) = .ok (env, ds))
    (hds : ∀ d ∈ ds, d.Met ∧ d.FitsField bits) :
    ∃ w, w.get? oneIndex = some 1 ∧ HasInputs c w (xs ++ ys) ∧
      ∀ k ∈ s.constraints, k.residual f.modulus w = .ok 0 := by
  obtain ⟨zs, hzs, rfl⟩ := parseAll_of_reads hxs
  obtain ⟨zs', hzs', rfl⟩ := parseAll_of_reads hys
  have hsize := (length_of_parseAll hzs).trans hlen
  have hsize' := (length_of_parseAll hzs').trans hlen'
  have hpursues := pursues_start hs hlen hlen' hzs hzs'
  rw [hrun] at hpursues
  obtain ⟨w, hadv, _, hsat, _⟩ := hpursues.follows.advance fun d hd => (hds d hd).2
  refine ⟨w, hadv.ready.one, ?_, ?_⟩
  · -- the assignment keeps the values of the parameters
    rw [HasInputs, ← residue_start hsize hsize']
    apply List.map_congr_left
    intro i hi
    have hnext : i < (paramState c).next := by
      rw [paramState_eq]
      exact (List.mem_range'_1.mp hi).2
    rw [Assignment.residue, Assignment.residue, hadv.agree i hnext]
  · rw [← hadv.ready.satisfied_iff_residual, hsat]
    refine ⟨?_, fun d hd => (hds d hd).1⟩
    rw [paramState_eq]
    exact fun k hk => absurd hk List.not_mem_nil

/-- **Wrap-around.** For a circuit without division, lowered over a prime field, and inputs of the
right number that are all read: the circuit runs; generation fails exactly when an order does not
hold of the representatives; and an assignment of the same inputs satisfies all constraints exactly
when every equality and truth holds and every order either holds of the representatives or wraps
around.  So what generation refuses is still satisfiable exactly when every order it refuses wraps
around and nothing else is violated. -/
theorem satisfiable_iff_fits_or_wraps (f : PrimeField) [Fact f.modulus.Prime] (bits : Nat)
    (c : Circuit) (sys : ConstraintSystem) (h : c.lower ⟨f, bits⟩ = .ok sys)
    (hdiv : c.DivisionFree) (privateValues publicValues : List Value)
    (hlen : privateValues.length = c.privateParams.length)
    (hlen' : publicValues.length = c.publicParams.length) (xs ys : List (ZMod f.modulus))
    (hxs : Reads f privateValues xs) (hys : Reads f publicValues ys) :
    ∃ env ds, Reference.run c.statements (c.paramEnv (xs ++ ys)) = .ok (env, ds) ∧
      (Fails (sys.witness f privateValues publicValues) ↔ ∃ d ∈ ds, ¬ d.Fits bits) ∧
      ((∃ w, w.get? oneIndex = some 1 ∧ HasInputs c w (xs ++ ys) ∧
          ∀ k ∈ sys.constraints, k.residual f.modulus w = .ok 0) ↔
        ∀ d ∈ ds, d.Met ∧ (d.Fits bits ∨ d.Wraps bits)) := by
  obtain ⟨s, hs, rfl⟩ := lower_eq_ok_iff.mp h
  have hfree : ¬ ∃ statement ∈ c.statements, statement.HasDivision := by
    rintro ⟨statement, hmem, hd⟩
    exact hdiv statement hmem hd
  obtain ⟨⟨env, ds⟩, hrun⟩ := (onlyDivides_run hs hlen hlen' hxs hys).exists_ok hfree
  refine ⟨env, ds, hrun, ?_, ?_, ?_⟩
  · rw [fails_iff_not_exists_ok, exists_witness_iff hs hlen hlen' hxs hys, hrun]
    simp
  · rintro ⟨w, hone, hinputs, hsat⟩ d hd
    obtain ⟨env', ds', hrun', hds'⟩ := demands_of_satisfying hdiv hs hone hsat
    rw [env_paramState, hinputs, hrun] at hrun'
    cases hrun'
    obtain ⟨hmet, hfits⟩ := hds' d hd
    exact ⟨hmet, Reference.Demand.fitsField_iff.mp hfits⟩
  · intro hds
    exact exists_satisfying hs hlen hlen' hxs hys hrun fun d hd =>
      ⟨(hds d hd).1, Reference.Demand.fitsField_iff.mpr (hds d hd).2⟩

/-- The circuit `balance >= minimum`. -/
def orderCircuit : Circuit where
  publicParams := [⟨"minimum", 0⟩]
  privateParams := [⟨"balance", 0⟩]
  statements := [.assert (.binary .ge (.identifier "balance") (.identifier "minimum")) none]

/-- The system of `orderCircuit` with comparisons of one bit. -/
def orderSystem : ConstraintSystem :=
  (orderCircuit.lower { bits := 1 }).toOption.getD default

theorem divisionFree_orderCircuit : orderCircuit.DivisionFree := by
  intro s hs
  rw [List.mem_singleton.mp hs]
  rintro (h | _ | _)
  rcases h with _ | h | h
  · cases h
  · cases h

/-- Generation refuses a balance of zero with the greatest element as its minimum, and the
constraints accept it. -/
theorem satisfiable_iff_fits_or_wraps_order :
    Fails (orderSystem.witness .scalar [.int 0] [.int (-1)]) ∧
      ∃ w, w.get? oneIndex = some 1 ∧
        HasInputs (f := .scalar) orderCircuit w [0, -1] ∧
        ∀ k ∈ orderSystem.constraints, k.residual scalarModulus w = .ok 0 := by
  obtain ⟨env, ds, hrun, hfails, hsat⟩ :=
    satisfiable_iff_fits_or_wraps .scalar 1 orderCircuit orderSystem rfl divisionFree_orderCircuit
      [.int 0] [.int (-1)] rfl rfl [0] [-1] (.cons ⟨_, rfl, by decide +kernel⟩ .nil)
      (.cons ⟨_, rfl, by decide +kernel⟩ .nil)
  cases hrun
  refine ⟨hfails.mpr ⟨_, .head _, by decide +kernel⟩, hsat.mpr ?_⟩
  intro d hd
  rw [List.mem_singleton.mp hd]
  exact ⟨trivial, by decide +kernel⟩

end ArrowCircuit.Witness
