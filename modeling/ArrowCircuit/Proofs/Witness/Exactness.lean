import ArrowCircuit.Proofs.Lowering.Faults
import ArrowCircuit.Proofs.Witness.Statements

/-!
# Exactness of witness generation

Generation answers exactly on the inputs on which the reference semantics runs and every order holds
as an order of numbers.  Its answer gives every name its reference value, and satisfies the
constraints exactly when all equalities and truths that are asserted hold.
-/

namespace ArrowCircuit.Witness

open Lowering

/-! ## Inputs -/

section Inputs

variable {f : PrimeField}

theorem canonical_of_parse [NeZero f.modulus] {v : Value} {e : Element} (h : f.parse v = .ok e) :
    Canonical f.modulus e.value := by
  have helement : ∀ z, Canonical f.modulus (f.element z).value := f.canonical_reduce
  unfold PrimeField.parse at h
  split at h
  · rename_i e'
    split at h
    · rename_i hmod
      cases h
      have hpos : (0 : Int) < f.modulus := by exact_mod_cast Nat.pos_of_neZero f.modulus
      rw [← e.isReduced, hmod]
      exact ⟨Int.fmod_nonneg_of_pos _ hpos, Int.fmod_lt_of_pos _ hpos⟩
    · cases h
  · cases h
    exact helement _
  · cases h
    exact helement _
  · rename_i t
    cases ht : PrimeField.parseText t with
    | error e => simp [ht, Except.map] at h
    | ok z =>
        rw [ht] at h
        cases h
        exact helement z
  · cases h

/-- Supplied values are read as these elements of the field. -/
def Reads (f : PrimeField) (values : List Value) (xs : List (ZMod f.modulus)) : Prop :=
  List.Forall₂ (fun v x => ∃ e, f.parse v = .ok e ∧ (e.value : ZMod f.modulus) = x) values xs

theorem parseAll_eq_ok_iff {values : List Value} {zs : List Int} :
    parseAll f values = .ok zs ↔
      List.Forall₂ (fun v z => ∃ e, f.parse v = .ok e ∧ e.value = z) values zs := by
  have hread : ∀ v z, (((f.parse v).map (·.value)).mapError Fault.input) = .ok z ↔
      ∃ e, f.parse v = .ok e ∧ e.value = z := by
    intro v z
    cases f.parse v with
    | error x => simp [Except.map, Except.mapError]
    | ok e => simp [Except.map, Except.mapError]
  rw [parseAll, mapM_eq_ok_iff]
  simp only [hread]

/-- The residues of integers. -/
def residues (f : PrimeField) (zs : List Int) : List (ZMod f.modulus) := zs.map Int.cast

theorem reads_of_parseAll {values : List Value} {zs : List Int} (h : parseAll f values = .ok zs) :
    Reads f values (residues f zs) := by
  rw [Reads, residues, List.forall₂_map_right_iff]
  refine (parseAll_eq_ok_iff.mp h).imp ?_
  rintro v z ⟨e, he, rfl⟩
  exact ⟨e, he, rfl⟩

theorem parseAll_of_reads {values : List Value} {xs : List (ZMod f.modulus)}
    (h : Reads f values xs) : ∃ zs, parseAll f values = .ok zs ∧ residues f zs = xs := by
  induction h with
  | nil => exact ⟨[], rfl, rfl⟩
  | cons hv _ ih =>
      obtain ⟨e, he, rfl⟩ := hv
      obtain ⟨zs, hzs, rfl⟩ := ih
      refine ⟨e.value :: zs, parseAll_eq_ok_iff.mpr (.cons ⟨e, he, rfl⟩ ?_), rfl⟩
      exact parseAll_eq_ok_iff.mp hzs

theorem canonical_of_parseAll [NeZero f.modulus] {values : List Value} {zs : List Int}
    (h : parseAll f values = .ok zs) : ∀ z ∈ zs, Canonical f.modulus z := by
  have h := parseAll_eq_ok_iff.mp h
  induction h with
  | nil => simp
  | cons hv _ ih =>
      obtain ⟨e, he, rfl⟩ := hv
      exact List.forall_mem_cons.mpr ⟨canonical_of_parse he, ih (parseAll_eq_ok_iff.mpr ‹_›)⟩

end Inputs

/-! ## The first indices -/

/-- The assignment that generation starts from: one, and the values of the parameters. -/
def start (privateValues publicValues : List Int) : Assignment :=
  Assignment.set ⟨align (toolchainOrder privateValues publicValues)⟩ oneIndex 1

theorem lookup_numbered (zs : List Int) (first i : Nat) :
    ((zs.zipIdx first).map fun (v, j) => (j + 1, v)).lookup (first + i + 1) = zs[i]? := by
  induction zs generalizing first i with
  | nil => rfl
  | cons z rest ih =>
      rw [List.zipIdx_cons, List.map_cons, List.lookup_cons]
      cases i with
      | zero => simp
      | succ i =>
          have hne : (first + (i + 1) + 1 == first + 1) = false := by simp
          have hidx : first + (i + 1) + 1 = first + 1 + i + 1 := by omega
          rw [hne, List.getElem?_cons_succ, ← ih (first + 1) i, hidx]

/-- The parameters stand behind the constant, private ones first. -/
theorem get?_start_succ (privateValues publicValues : List Int) (i : Nat) :
    (start privateValues publicValues).get? (i + 1) = (privateValues ++ publicValues)[i]? := by
  have h := lookup_numbered (privateValues ++ publicValues) 0 i
  rw [Nat.zero_add] at h
  rw [start, Assignment.get?_set, if_neg (show i + 1 ≠ oneIndex from Nat.succ_ne_zero i),
    Assignment.get?, ← h, align,
    toolchainOrder, List.map_map]
  rfl

theorem get?_start_zero (privateValues publicValues : List Int) :
    (start privateValues publicValues).get? oneIndex = some 1 := by
  rw [start, Assignment.get?_set, if_pos rfl]

theorem indices_align (privateValues publicValues : List Int) :
    (align (toolchainOrder privateValues publicValues)).map (·.1) =
      List.range' 1 (privateValues.length + publicValues.length) := by
  have hsucc := List.map_add_range' (a := 1) 0 (privateValues ++ publicValues).length 1
  rw [← List.zipIdx_map_snd, List.map_map, List.length_append] at hsucc
  rw [← hsucc, align, toolchainOrder, List.map_map, List.map_map]
  apply List.map_congr_left
  rintro ⟨v, i⟩ _
  exact Nat.add_comm i 1

/-- The parameters of a lowered circuit have the first indices. -/
theorem mergeSort_inputs (k m : Nat) :
    (List.range' 1 k ++ List.range' (1 + k) m).mergeSort (· ≤ ·) = List.range' 1 (k + m) := by
  rw [List.range'_append_1]
  apply List.mergeSort_of_pairwise
  simpa using List.pairwise_le_range' (s := 1) (n := k + m) 1

/-! ## Generation -/

section Generation

variable {f : PrimeField} {c : Circuit} {s : State} {privateValues publicValues : List Value}

theorem length_of_parseAll {values : List Value} {zs : List Int} (h : parseAll f values = .ok zs) :
    zs.length = values.length :=
  (parseAll_eq_ok_iff.mp h).length_eq.symm

/-- The indices of the values are those of the parameters. -/
theorem inputs_match {zs zs' : List Int} (hlen : zs.length = c.privateParams.length)
    (hlen' : zs'.length = c.publicParams.length) :
    (align (toolchainOrder zs zs')).map (·.1) =
      ((s.system c).privateInputs ++ (s.system c).publicInputs).mergeSort (· ≤ ·) := by
  rw [indices_align, State.system, mergeSort_inputs, hlen, hlen']

/-- The last check of generation: no index is without a value. -/
theorem complete_eq_ok_iff {r : Result Assignment} {n : Nat} {w : Assignment} :
    (do
      let w ← r
      match (List.range n).find? fun i => (w.get? i).isNone with
      | some i => .error (.missing i)
      | none => return w) = Except.ok w ↔
      r = .ok w ∧ ∀ i < n, (w.get? i).isSome := by
  have hnone : ∀ w : Assignment, (List.range n).find? (fun i => (w.get? i).isNone) = none ↔
      ∀ i < n, (w.get? i).isSome := by
    simp [List.find?_eq_none, Option.isSome_iff_ne_none]
  constructor
  · intro h
    obtain ⟨w', hw', h⟩ := bind_eq_ok h
    split at h
    · cases h
    · rename_i hfind
      cases h
      exact ⟨hw', (hnone w).mp hfind⟩
  · rintro ⟨rfl, hsome⟩
    simp only [bind, Except.bind, (hnone w).mpr hsome]
    rfl

/-- **Generation.** For the system of a lowered circuit: the counts match, the values are read, the
schedule is carried out from the parameters on, and no index is left out. -/
theorem witness_eq_ok_iff {w : Assignment} :
    (s.system c).witness f privateValues publicValues = .ok w ↔
      privateValues.length = c.privateParams.length ∧
      publicValues.length = c.publicParams.length ∧
      ∃ zs zs', parseAll f privateValues = .ok zs ∧ parseAll f publicValues = .ok zs' ∧
        replay f (paramState c) s (start zs zs') = .ok w ∧
        ∀ i < s.next, (w.get? i).isSome := by
  have hk : (s.system c).privateInputs.length = c.privateParams.length := List.length_range'
  have hm : (s.system c).publicInputs.length = c.publicParams.length := List.length_range'
  have hreplay : ∀ w, replay f (paramState c) s w = applyAll f (s.system c).computations w := by
    intro w
    apply replay_of_append
    rw [paramState_eq, List.nil_append]
    rfl
  rw [ConstraintSystem.witness, hk, hm]
  constructor
  · intro h
    split at h
    · cases h
    rename_i hlen
    split at h
    · cases h
    rename_i hlen'
    obtain ⟨zs, hzs, h⟩ := bind_eq_ok h
    obtain ⟨zs', hzs', h⟩ := bind_eq_ok h
    have hinputs := inputs_match (s := s) ((length_of_parseAll hzs).trans (not_not.mp hlen))
      ((length_of_parseAll hzs').trans (not_not.mp hlen'))
    refine ⟨not_not.mp hlen, not_not.mp hlen', zs, zs', hzs, hzs', ?_⟩
    rw [hreplay]
    rw [if_neg (not_not.mpr hinputs)] at h
    exact complete_eq_ok_iff.mp h
  · rintro ⟨hlen, hlen', zs, zs', hzs, hzs', h⟩
    have hinputs := inputs_match (s := s) ((length_of_parseAll hzs).trans hlen)
      ((length_of_parseAll hzs').trans hlen')
    rw [hreplay] at h
    simp only [if_neg (not_not.mpr hlen), if_neg (not_not.mpr hlen'), hzs, hzs', bind, Except.bind,
      if_neg (not_not.mpr hinputs)]
    exact complete_eq_ok_iff.mpr h

end Generation

/-! ## Exactness -/

section Exactness

variable {f : PrimeField} {c : Circuit} {zs zs' : List Int}

theorem length_paramNames (c : Circuit) :
    c.paramNames.length = c.privateParams.length + c.publicParams.length := by
  rw [Circuit.paramNames, List.length_append, List.length_map, List.length_map]

theorem isSome_start_iff {i : Nat} :
    ((start zs zs').get? i).isSome ↔ i < 1 + (zs.length + zs'.length) := by
  cases i with
  | zero =>
      rw [show (0 : Nat) = oneIndex from rfl, get?_start_zero, Option.isSome_some]
      exact iff_of_true rfl (Nat.lt_one_add_iff.mpr (Nat.zero_le _))
  | succ i =>
      rw [get?_start_succ, isSome_getElem?, List.length_append]
      omega

theorem canonical_start [Fact f.modulus.Prime] (h : ∀ z ∈ zs ++ zs', Canonical f.modulus z)
    {i : Nat} {v : Int} (hv : (start zs zs').get? i = some v) : Canonical f.modulus v := by
  have hp : 1 < f.modulus := (Fact.out : f.modulus.Prime).one_lt
  cases i with
  | zero =>
      rw [show (0 : Nat) = oneIndex from rfl, get?_start_zero] at hv
      cases hv
      exact ⟨by omega, by omega⟩
  | succ i =>
      rw [get?_start_succ] at hv
      exact h v (List.mem_of_getElem? hv)

/-- The start of generation is ready for the statements of a circuit. -/
theorem ready_start [Fact f.modulus.Prime] (hlen : zs.length = c.privateParams.length)
    (hlen' : zs'.length = c.publicParams.length)
    (hcanonical : ∀ z ∈ zs ++ zs', Canonical f.modulus z) :
    Ready f (paramState c) (start zs zs') := by
  have hsize : zs.length + zs'.length = c.paramNames.length := by
    rw [length_paramNames, hlen, hlen']
  rw [paramState_eq]
  refine ⟨get?_start_zero zs zs', fun i v => canonical_start hcanonical, ?_, ?_, by simp⟩
  · intro i hi
    rw [← Option.not_isSome_iff_eq_none, isSome_start_iff, hsize]
    exact Nat.not_lt.mpr hi
  · rintro ⟨n, b⟩ hmem
    have hb := (List.of_mem_zip (List.mem_reverse.mp hmem)).2
    obtain ⟨i, hi, rfl⟩ := List.mem_map.mp hb
    rw [isSome_start_iff, hsize]
    exact (List.mem_range'_1.mp hi).2

/-- The indices of the parameters start with the values that were read. -/
theorem residue_start (hlen : zs.length = c.privateParams.length)
    (hlen' : zs'.length = c.publicParams.length) :
    (List.range' 1 c.paramNames.length).map ((start zs zs').residue f.modulus) =
      residues f zs ++ residues f zs' := by
  apply List.ext_getElem
  · simp only [residues, length_paramNames, List.length_map, List.length_range',
      List.length_append, hlen, hlen']
  · intro i hi hi'
    have hi'' : i < (zs ++ zs').length := by
      simpa only [residues, List.length_append, List.length_map] using hi'
    have hget : (start zs zs').get? (i + 1) = some (zs ++ zs')[i] := by
      rw [get?_start_succ, List.getElem?_eq_getElem hi'']
    simp only [residues, ← List.map_append, List.getElem_map, List.getElem_range', Nat.one_mul,
      Nat.add_comm 1 i]
    exact Assignment.residue_of_get? hget

theorem env_start (hlen : zs.length = c.privateParams.length)
    (hlen' : zs'.length = c.publicParams.length) :
    (paramState c).env ((start zs zs').residue f.modulus) =
      c.paramEnv (residues f zs ++ residues f zs') := by
  rw [env_paramState, residue_start hlen hlen']

/-- What has been advanced from the parameters has a value at every index. -/
theorem isSome_of_advances {s : State} {w : Assignment} (hlen : zs.length = c.privateParams.length)
    (hlen' : zs'.length = c.publicParams.length)
    (h : Advances f (paramState c) s (start zs zs') w) : ∀ i < s.next, (w.get? i).isSome := by
  have hnext : (paramState c).next = 1 + (zs.length + zs'.length) := by
    rw [paramState_eq, length_paramNames, hlen, hlen']
  intro i hi
  by_cases hlt : i < (paramState c).next
  · rw [h.agree i hlt]
    exact isSome_start_iff.mpr (hnext ▸ hlt)
  · exact h.filled i (Nat.not_lt.mp hlt) hi

variable [Fact f.modulus.Prime] {bits : Nat} {s : State} {privateValues publicValues : List Value}

theorem pursues_start (hs : lowerStatements ⟨f, bits⟩ c.statements (paramState c) = .ok s)
    (hlen : privateValues.length = c.privateParams.length)
    (hlen' : publicValues.length = c.publicParams.length)
    (hzs : parseAll f privateValues = .ok zs) (hzs' : parseAll f publicValues = .ok zs') :
    Pursues ⟨f, bits⟩ (paramState c) s (start zs zs')
      (Reference.run c.statements (c.paramEnv (residues f zs ++ residues f zs'))) := by
  have hsize := (length_of_parseAll hzs).trans hlen
  have hsize' := (length_of_parseAll hzs').trans hlen'
  rw [← env_start hsize hsize']
  exact pursues_of_lowerStatements hs (ready_start hsize hsize' (List.forall_mem_append.mpr
    ⟨canonical_of_parseAll hzs, canonical_of_parseAll hzs'⟩))

/-- On values that are read, generation returns exactly when every order fits. -/
theorem exists_witness_iff (hs : lowerStatements ⟨f, bits⟩ c.statements (paramState c) = .ok s)
    (hlen : privateValues.length = c.privateParams.length)
    (hlen' : publicValues.length = c.publicParams.length) {xs ys : List (ZMod f.modulus)}
    (hxs : Reads f privateValues xs) (hys : Reads f publicValues ys) :
    (∃ w, (s.system c).witness f privateValues publicValues = .ok w) ↔
      ∃ env ds, Reference.run c.statements (c.paramEnv (xs ++ ys)) = .ok (env, ds) ∧
        ∀ d ∈ ds, d.Fits bits := by
  obtain ⟨zs, hzs, rfl⟩ := parseAll_of_reads hxs
  obtain ⟨zs', hzs', rfl⟩ := parseAll_of_reads hys
  have hpursues := pursues_start hs hlen hlen' hzs hzs'
  constructor
  · rintro ⟨w, hw⟩
    obtain ⟨_, _, us, us', hus, hus', hreplay, _⟩ := witness_eq_ok_iff.mp hw
    -- the values that generation read are the ones given
    cases hzs.symm.trans hus
    cases hzs'.symm.trans hus'
    obtain ⟨_, ds, hrun, hds, _⟩ := hpursues.of_replay hreplay
    exact ⟨_, ds, hrun, hds⟩
  · rintro ⟨env, ds, hrun, hds⟩
    rw [hrun] at hpursues
    obtain ⟨w, hreplay⟩ := hpursues.exists_replay hds
    obtain ⟨hadv, _⟩ := hpursues.of_replay hreplay
    refine ⟨w, witness_eq_ok_iff.mpr ⟨hlen, hlen', zs, zs', hzs, hzs', hreplay, ?_⟩⟩
    exact isSome_of_advances ((length_of_parseAll hzs).trans hlen)
      ((length_of_parseAll hzs').trans hlen') hadv

/-- On values that are read, a circuit fails by a division by zero only, and only if it divides. -/
theorem onlyDivides_run (hs : lowerStatements ⟨f, bits⟩ c.statements (paramState c) = .ok s)
    (hlen : privateValues.length = c.privateParams.length)
    (hlen' : publicValues.length = c.publicParams.length) {xs ys : List (ZMod f.modulus)}
    (hxs : Reads f privateValues xs) (hys : Reads f publicValues ys) :
    OnlyDivides (∃ statement ∈ c.statements, statement.HasDivision)
      (Reference.run c.statements (c.paramEnv (xs ++ ys))) := by
  obtain ⟨zs, hzs, rfl⟩ := parseAll_of_reads hxs
  obtain ⟨zs', hzs', rfl⟩ := parseAll_of_reads hys
  rw [← env_start ((length_of_parseAll hzs).trans hlen) ((length_of_parseAll hzs').trans hlen')]
  exact onlyDivides_of_lowerStatements hs (scoped_env _ _)

/-- A witness has the counts and values of its inputs, the reference values of all names, and
satisfies the constraints if the other demands are met. -/
theorem run_of_witness (hs : lowerStatements ⟨f, bits⟩ c.statements (paramState c) = .ok s)
    {w : Assignment} (hw : (s.system c).witness f privateValues publicValues = .ok w) :
    privateValues.length = c.privateParams.length ∧
    publicValues.length = c.publicParams.length ∧
    ∃ xs ys, Reads f privateValues xs ∧ Reads f publicValues ys ∧
      ∃ ds, Reference.run c.statements (c.paramEnv (xs ++ ys)) =
          .ok (s.env (w.residue f.modulus), ds) ∧
        (∀ i < s.next, ∃ v, w.get? i = some v ∧ Canonical f.modulus v) ∧
        ((∀ k ∈ s.constraints, k.residual f.modulus w = .ok 0) ↔ ∀ d ∈ ds, d.Met) := by
  obtain ⟨hlen, hlen', zs, zs', hzs, hzs', hreplay, hsome⟩ := witness_eq_ok_iff.mp hw
  obtain ⟨hadv, ds, hrun, _, hsat⟩ := (pursues_start hs hlen hlen' hzs hzs').of_replay hreplay
  refine ⟨hlen, hlen', _, _, reads_of_parseAll hzs, reads_of_parseAll hzs', ds, hrun, ?_, ?_⟩
  · intro i hi
    obtain ⟨v, hv⟩ := Option.isSome_iff_exists.mp (hsome i hi)
    exact ⟨v, hv, hadv.ready.canonical i v hv⟩
  · -- nothing is constrained before the first statement
    have hempty : Satisfied f (paramState c) (start zs zs') := by
      rw [paramState_eq]
      exact fun k hk => absurd hk List.not_mem_nil
    rw [← hadv.ready.satisfied_iff_residual, hsat]
    exact and_iff_right hempty

/-- **Exactness of witness generation.** For a circuit lowered over a prime field, generation returns
a witness exactly when the counts match, every value is read as an element, and the circuit runs on
these elements with every order fitting as a number; and the run of a circuit can fail by a division
by zero only.  In the witness returned every index has a representative, each name has its reference
value, and all constraints are satisfied exactly when every equality and truth that is asserted
holds. -/
theorem witness_exact (f : PrimeField) [Fact f.modulus.Prime] (bits : Nat) (c : Circuit)
    (sys : ConstraintSystem) (h : c.lower ⟨f, bits⟩ = .ok sys)
    (privateValues publicValues : List Value) :
    ((∃ w, sys.witness f privateValues publicValues = .ok w) ↔
      privateValues.length = c.privateParams.length ∧
      publicValues.length = c.publicParams.length ∧
      ∃ xs ys, Reads f privateValues xs ∧ Reads f publicValues ys ∧
        ∃ env ds, Reference.run c.statements (c.paramEnv (xs ++ ys)) = .ok (env, ds) ∧
          ∀ d ∈ ds, d.Fits bits) ∧
    (privateValues.length = c.privateParams.length →
      publicValues.length = c.publicParams.length →
      ∀ xs ys, Reads f privateValues xs → Reads f publicValues ys →
        ∀ e, Reference.run c.statements (c.paramEnv (xs ++ ys)) = .error e →
          e = .divisionByZero) ∧
    ∀ w, sys.witness f privateValues publicValues = .ok w →
      ∃ s, lowerStatements ⟨f, bits⟩ c.statements (paramState c) = .ok s ∧ sys = s.system c ∧
        ∃ xs ys, Reads f privateValues xs ∧ Reads f publicValues ys ∧
          ∃ ds, Reference.run c.statements (c.paramEnv (xs ++ ys)) =
              .ok (s.env (w.residue f.modulus), ds) ∧
            (∀ i < sys.numWitnesses, ∃ v, w.get? i = some v ∧ Canonical f.modulus v) ∧
            ((∀ k ∈ sys.constraints, k.residual f.modulus w = .ok 0) ↔ ∀ d ∈ ds, d.Met) := by
  obtain ⟨s, hs, rfl⟩ := lower_eq_ok_iff.mp h
  refine ⟨⟨?_, ?_⟩, ?_, ?_⟩
  · rintro ⟨w, hw⟩
    obtain ⟨hlen, hlen', xs, ys, hxs, hys, _⟩ := run_of_witness hs hw
    exact ⟨hlen, hlen', xs, ys, hxs, hys, (exists_witness_iff hs hlen hlen' hxs hys).mp ⟨w, hw⟩⟩
  · rintro ⟨hlen, hlen', xs, ys, hxs, hys, hrun⟩
    exact (exists_witness_iff hs hlen hlen' hxs hys).mpr hrun
  · intro hlen hlen' xs ys hxs hys e he
    exact (onlyDivides_run hs hlen hlen' hxs hys e he).1
  · intro w hw
    obtain ⟨_, _, hrun⟩ := run_of_witness hs hw
    exact ⟨s, hs, rfl, hrun⟩

end Exactness

/-- The field of seven elements, in which comparisons of four bits are wider than the field. -/
def smallField : PrimeField := ⟨7⟩

instance : Fact smallField.modulus.Prime := ⟨by decide⟩

/-- The system of `balanceCircuit` over the small field. -/
def smallBalanceSystem : ConstraintSystem :=
  (balanceCircuit.lower ⟨smallField, 4⟩).toOption.getD default

theorem witness_exact_balance :
    (∃ w, smallBalanceSystem.witness smallField [.int 6] [.int 3] = .ok w) ∧
      ¬ ∃ w, smallBalanceSystem.witness smallField [.int 3] [.int 6] = .ok w := by
  have hlower : balanceCircuit.lower ⟨smallField, 4⟩ = .ok smallBalanceSystem := rfl
  constructor
  · apply (witness_exact smallField 4 balanceCircuit smallBalanceSystem hlower _ _).1.mpr
    refine ⟨rfl, rfl, [6], [3], .cons ⟨_, rfl, rfl⟩ .nil, .cons ⟨_, rfl, rfl⟩ .nil, _, _, rfl, ?_⟩
    decide
  · intro hw
    obtain ⟨_, _, xs, ys, hxs, hys, env, ds, hrun, hds⟩ :=
      (witness_exact smallField 4 balanceCircuit smallBalanceSystem hlower _ _).1.mp hw
    obtain ⟨x, _, ⟨_, ⟨⟩, rfl⟩, ⟨⟩, rfl⟩ := List.forall₂_cons_left_iff.mp hxs
    obtain ⟨y, _, ⟨_, ⟨⟩, rfl⟩, ⟨⟩, rfl⟩ := List.forall₂_cons_left_iff.mp hys
    have horder : Reference.Demand.order (3 : ZMod smallField.modulus) 6 false ∈ ds := by
      cases hrun
      exact .tail _ (.head _)
    exact absurd (hds _ horder) (by decide)

end ArrowCircuit.Witness
