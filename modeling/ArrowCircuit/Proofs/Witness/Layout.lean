import ArrowCircuit.Circuit.Noir
import ArrowCircuit.Proofs.Lowering.Schedule
import ArrowCircuit.Proofs.Witness.Exactness

/-!
# The layout of a witness

A lowered circuit has the constant one at index zero, then its parameters in the order in which a Noir
program lists them, and behind them indices that the schedule fills once each and in order
(`LaidOut`).  For a system with this layout, generation fails only by a fault of its inputs: it never
meets an index without a value.
-/

namespace ArrowCircuit

open Schedule

/-- The layout of a system with `k` private and `m` public inputs: the inputs have the first indices
behind the constant, each index behind them is filled once, a computation reads only what has been
filled before it, and constraints speak of indices that there are. -/
structure ConstraintSystem.LaidOut (sys : ConstraintSystem) (k m : Nat) : Prop where
  privateInputs : sys.privateInputs = List.range' 1 k
  publicInputs : sys.publicInputs = List.range' (1 + k) m
  lt_numWitnesses : k + m < sys.numWitnesses
  filledOnce : ∀ i, (filled sys.computations).count i =
    if k + m < i ∧ i < sys.numWitnesses then 1 else 0
  inOrder : InOrder (· ≤ k + m) sys.computations
  constraints : ∀ c ∈ sys.constraints, c.Within (· < sys.numWitnesses)

namespace ConstraintSystem.LaidOut

variable {sys : ConstraintSystem} {k m : Nat}

theorem mem_filled_iff (h : sys.LaidOut k m) {i : Nat} :
    i ∈ filled sys.computations ↔ k + m < i ∧ i < sys.numWitnesses := by
  rw [← List.count_pos_iff, h.filledOnce]
  split <;> simp_all

theorem one_notMem_filled (h : sys.LaidOut k m) : oneIndex ∉ filled sys.computations :=
  fun hmem => Nat.not_lt_zero _ (h.mem_filled_iff.mp hmem).1

/-- Behind the schedule every index is known. -/
theorem after_computations (h : sys.LaidOut k m) :
    After (· ≤ k + m) sys.computations = (· < sys.numWitnesses) := by
  have hlt := h.lt_numWitnesses
  funext i
  rw [After, h.mem_filled_iff, eq_iff_iff]
  omega

end ConstraintSystem.LaidOut

/-! ## The layout of lowered circuits -/

namespace Lowering

variable {settings : Settings} {c : Circuit} {s : State}

/-- What is known before the statements of a circuit: the constant and the parameters. -/
theorem knows_paramState (c : Circuit) :
    Knows (· ≤ c.privateParams.length + c.publicParams.length) (paramState c) := by
  rw [← Witness.length_paramNames, paramState_eq]
  refine ⟨Nat.zero_le _, ?_, fun i hi => Nat.lt_one_add_iff.mpr hi⟩
  rintro ⟨n, b⟩ hmem
  obtain ⟨i, hi, rfl⟩ := List.mem_map.mp (List.of_mem_zip (List.mem_reverse.mp hmem)).2
  exact Nat.lt_one_add_iff.mp (List.mem_range'_1.mp hi).2

theorem laidOut_system (h : lowerStatements settings c.statements (paramState c) = .ok s) :
    (s.system c).LaidOut c.privateParams.length c.publicParams.length := by
  obtain ⟨cs, hcs, _⟩ := adds_of_lowerStatements h (knows_paramState c)
  have hnext : (paramState c).next = 1 + (c.privateParams.length + c.publicParams.length) := by
    rw [paramState_eq, Witness.length_paramNames]
  have hcomputations : s.computations = cs := by
    rw [hcs.computations, paramState_eq, List.nil_append]
  have hle : 1 + (c.privateParams.length + c.publicParams.length) ≤ s.next := hnext ▸ hcs.next_le
  refine ⟨rfl, rfl, Nat.lt_of_lt_of_le (by omega) hle, fun i => ?_, ?_, hcs.constraints ?_⟩
  · have hnodup : (filled cs).Nodup := hcs.perm.nodup_iff.mpr List.nodup_range'
    have hmem : i ∈ filled cs ↔ c.privateParams.length + c.publicParams.length < i ∧ i < s.next := by
      rw [hcs.mem_filled_iff, hnext]
      omega
    simp only [State.system, hcomputations, hnodup.count, hmem]
  · simpa only [State.system, hcomputations] using hcs.inOrder
  · rw [paramState_eq]
    exact fun k hk => absurd hk List.not_mem_nil

/-! ## Names -/

theorem LowersStatement.scope_suffix {statement : Statement} {s s' : State}
    (h : LowersStatement settings statement s s') : s.scope <:+ s'.scope := by
  have hsame : ∀ {s₁ : State}, s₁.scope = s.scope → s.scope <:+ s₁.scope :=
    fun h => h ▸ List.suffix_rfl
  cases h with
  | equality h => exact hsame h.scope_eq
  | order _ ha hb => exact hsame (hb.scope_eq.trans ha.scope_eq)
  | truth _ h => exact hsame h.scope_eq
  | declare _ h | assign _ _ h => exact h.scope_eq ▸ List.suffix_cons _ _

/-- A name that may not be assigned keeps its index: it can neither be declared nor assigned again. -/
theorem LowersStatement.lookup?_eq {statement : Statement} {s s' : State} {n : String} {i : Nat}
    (h : LowersStatement settings statement s s') (hb : s.lookup? n = some ⟨i, false⟩) :
    s'.lookup? n = some ⟨i, false⟩ := by
  -- a name that is bound anew is another one
  have hbind : ∀ {s₁ : State} {n' : String} {b : Binding}, s₁.scope = s.scope → n ≠ n' →
      (s₁.bindName n' b).lookup? n = some ⟨i, false⟩ := by
    intro s₁ n' b hscope hne
    rw [State.lookup?, State.bindName, List.lookup_cons, beq_eq_false_iff_ne.mpr hne, hscope]
    exact hb
  cases h with
  | equality h => rwa [State.lookup?, h.scope_eq]
  | order _ ha hb' => exact (congrArg (List.lookup n) (hb'.scope_eq.trans ha.scope_eq)).trans hb
  | truth _ h => exact (congrArg (List.lookup n) h.scope_eq).trans hb
  | declare hn h =>
      refine hbind h.scope_eq ?_
      rintro rfl
      cases hn.symm.trans hb
  | assign hn hmutable h =>
      refine hbind h.scope_eq ?_
      rintro rfl
      cases hn.symm.trans hb
      cases hmutable

theorem scope_suffix_of_lowerStatements {statements : List Statement} {s s' : State}
    (h : lowerStatements settings statements s = .ok s') : s.scope <:+ s'.scope := by
  induction statements generalizing s with
  | nil =>
      cases h
      exact List.suffix_rfl
  | cons statement rest ih =>
      obtain ⟨s₁, hstep, hrest⟩ := lowerStatements_cons h
      exact hstep.scope_suffix.trans (ih hrest)

theorem lookup?_of_lowerStatements {statements : List Statement} {s s' : State} {n : String}
    {i : Nat} (h : lowerStatements settings statements s = .ok s')
    (hb : s.lookup? n = some ⟨i, false⟩) : s'.lookup? n = some ⟨i, false⟩ := by
  induction statements generalizing s with
  | nil =>
      cases h
      exact hb
  | cons statement rest ih =>
      obtain ⟨s₁, hstep, hrest⟩ := lowerStatements_cons h
      exact ih hrest (hstep.lookup?_eq hb)

/-- Of the bindings made one after another, the last one of a name counts. -/
theorem lookup_reverse {l : List (String × Binding)} {j : Nat} {n : String} {b : Binding}
    (h : l[j]? = some (n, b)) (hlast : n ∉ (l.drop (j + 1)).map (·.1)) :
    l.reverse.lookup n = some b := by
  obtain ⟨hj, hget⟩ := List.getElem?_eq_some_iff.mp h
  have hnone : (l.drop (j + 1)).reverse.lookup n = none := by
    rw [List.lookup_eq_none_iff]
    rintro ⟨n', b'⟩ hmem
    refine bne_iff_ne.mpr ?_
    rintro rfl
    exact hlast (List.mem_map_of_mem (List.mem_reverse.mp hmem))
  rw [← List.take_append_drop j l, List.drop_eq_getElem_cons hj, hget, List.reverse_append,
    List.reverse_cons, List.append_assoc, List.lookup_append, hnone]
  simp

/-- The parameters are bound one after another. -/
theorem getElem?_paramBindings {j : Nat} {name : String} (h : c.paramNames[j]? = some name) :
    (c.paramNames.zip ((List.range' 1 c.paramNames.length).map (Binding.mk · false)))[j]? =
      some (name, ⟨j + 1, false⟩) := by
  have hj := (List.getElem?_eq_some_iff.mp h).1
  have hindex : (List.range' 1 c.paramNames.length)[j]? = some (j + 1) := by
    rw [List.getElem?_range' hj, Nat.one_mul, Nat.add_comm]
  rw [List.getElem?_zip_eq_some]
  exact ⟨h, by rw [List.getElem?_map, hindex]; rfl⟩

/-- **Names.** Each parameter was bound to the index behind its place, and stands for it behind any
statements; of several parameters of one name the last one does. -/
theorem lookup?_param {statements : List Statement}
    (h : lowerStatements settings statements (paramState c) = .ok s) {j : Nat} {name : String}
    (hj : c.paramNames[j]? = some name) :
    (name, ⟨j + 1, false⟩) ∈ s.scope ∧
      (name ∉ c.paramNames.drop (j + 1) → s.lookup? name = some ⟨j + 1, false⟩) := by
  have hbinding := getElem?_paramBindings hj
  have hscope : (paramState c).scope = _ := congrArg State.scope (paramState_eq c)
  constructor
  · apply (scope_suffix_of_lowerStatements h).subset
    rw [hscope, List.mem_reverse]
    exact List.mem_of_getElem? hbinding
  · intro hlast
    apply lookup?_of_lowerStatements h
    rw [State.lookup?, hscope]
    refine lookup_reverse hbinding ?_
    rwa [List.map_drop, List.map_fst_zip (by simp)]

/-- A name of distinct ones stands for the index behind its place. -/
theorem lookup?_of_nodup {statements : List Statement}
    (hs : lowerStatements settings statements (paramState c) = .ok s)
    (hnames : c.paramNames.Nodup) {j : Nat} {name : String} (hj : c.paramNames[j]? = some name) :
    s.lookup? name = some ⟨j + 1, false⟩ := by
  refine (lookup?_param hs hj).2 fun hmem => ?_
  obtain ⟨hlt, hget⟩ := List.getElem?_eq_some_iff.mp hj
  obtain ⟨i, hi, hi'⟩ := List.mem_iff_getElem.mp hmem
  rw [List.getElem_drop] at hi'
  have heq := hnames.getElem_inj_iff.mp (hi'.trans hget.symm)
  omega

end Lowering

/-! ## Order of the parameters -/

namespace Noir

/-- The parameters of `main` are those of the circuit in the order of the witness. -/
theorem parameters_eq (c : Circuit) :
    parameters c = c.paramNames.zipIdx.map fun entry =>
      entry.1 ++ if entry.2 < c.privateParams.length then ": Field" else ": pub Field" := by
  apply List.ext_getElem
  · simp [parameters, Circuit.paramNames]
  · intro i hi hi'
    simp only [parameters, Circuit.paramNames, List.getElem_append, List.getElem_map,
      List.getElem_zipIdx, List.length_map, Nat.zero_add]
    split <;> rfl

/-- A program begins with the head of `main`. -/
theorem head_of_program {c : Circuit} {text : String} (h : program c = .ok text) :
    ∃ rest, text = "fn main(" ++ ", ".intercalate (parameters c) ++ ") \x7b" ++ rest := by
  obtain ⟨body, -, h⟩ := bind_eq_ok h
  obtain ⟨line, lines, hlines⟩ : ∃ line lines, body ++ ["\x7d"] = line :: lines :=
    List.exists_cons_of_ne_nil (List.append_ne_nil_of_right_ne_nil _ (List.cons_ne_nil _ _))
  refine ⟨"\n" ++ "\n".intercalate (line :: lines) ++ "\n", ?_⟩
  rw [← Except.ok.inj h, List.cons_append, hlines, String.intercalate_cons_cons]
  simp only [String.append_assoc]

end Noir

/-! ## Generation -/

namespace Witness

open Lowering

/-- The faults that the inputs are to blame for: a wrong count, a value that cannot be read, or a value
for which a division or a comparison fails. -/
def Fault.OfInputs : Fault → Prop
  | .privateCount .. | .publicCount .. | .input _ | .divisionByZero _ | .negativeDifference ..
  | .bits (.tooLarge ..) => True
  | _ => False

/-- An outcome is a value with a property, or a fault of the inputs. -/
def Gives {α : Type} (Q : α → Prop) : Result α → Prop
  | .ok a => Q a
  | .error e => e.OfInputs

theorem Gives.bind {α β : Type} {P : α → Prop} {Q : β → Prop} {r : Result α} {g : α → Result β}
    (h : Gives P r) (hg : ∀ a, P a → Gives Q (g a)) : Gives Q (r >>= g) := by
  cases r with
  | error e => exact h
  | ok a => exact hg a h

/-- An assignment has values at these indices: one at index zero, and representatives everywhere. -/
structure Carries (f : PrimeField) (known : Nat → Prop) (w : Assignment) : Prop where
  one : w.get? oneIndex = some 1
  canonical : ∀ i v, w.get? i = some v → Canonical f.modulus v
  isSome_iff : ∀ i, (w.get? i).isSome ↔ known i

section Carries

variable {f : PrimeField} {known : Nat → Prop} {w : Assignment}

/-- Representatives at other indices. -/
theorem Carries.setAll (hw : Carries f known w) {targets : List Nat} {values : List Int}
    (hone : oneIndex ∉ targets) (hlen : values.length = targets.length)
    (hvalues : ∀ v ∈ values, Canonical f.modulus v) :
    Carries f (fun i => known i ∨ i ∈ targets) (w.setAll targets values) := by
  refine ⟨?_, fun i v hv => ?_, fun i => ?_⟩
  · rw [w.get?_setAll_of_notMem hone, hw.one]
  · by_cases hi : i ∈ targets
    · obtain ⟨x, hx, hget⟩ := w.get?_setAll_of_mem hlen hi
      cases hget.symm.trans hv
      exact hvalues v hx
    · rw [w.get?_setAll_of_notMem hi] at hv
      exact hw.canonical i v hv
  · by_cases hi : i ∈ targets
    · obtain ⟨x, -, hget⟩ := w.get?_setAll_of_mem hlen hi
      simp [hget, hi]
    · rw [w.get?_setAll_of_notMem hi, hw.isSome_iff, or_iff_left hi]

theorem Carries.set (hw : Carries f known w) {target : Nat} {v : Int}
    (hone : oneIndex ∉ [target]) (hv : Canonical f.modulus v) :
    Carries f (fun i => known i ∨ i ∈ [target]) (w.set target v) := by
  have hall : Carries f (fun i => known i ∨ i ∈ [target]) (w.setAll [target] [v]) :=
    hw.setAll hone rfl (List.forall_mem_singleton.mpr hv)
  exact hall

theorem Carries.covers (hw : Carries f known w) {terms : LinearForm}
    (h : ∀ i ∈ terms.map (·.index), known i) : w.Covers terms :=
  fun t ht => (hw.isSome_iff t.index).mpr (h _ (List.mem_map_of_mem ht))

theorem Carries.read_eq_ok (hw : Carries f known w) {i : Nat} (hi : known i) :
    ∃ v, read w i = .ok v ∧ Canonical f.modulus v := by
  obtain ⟨v, hv⟩ := Option.isSome_iff_exists.mp ((hw.isSome_iff i).mpr hi)
  exact ⟨v, by rw [read, hv], hw.canonical i v hv⟩

theorem canonical_of_mem_lowBits [Fact f.modulus.Prime] {count value : Nat} {b : Int}
    (h : b ∈ Bits.lowBits count value) : Canonical f.modulus b := by
  have hp : 1 < f.modulus := (Fact.out : f.modulus.Prime).one_lt
  rcases Bits.eq_zero_or_one_of_mem_lowBits h with rfl | rfl
  · exact ⟨by omega, by omega⟩
  · exact ⟨by omega, by omega⟩

/-- **Steps.** A computation that reads what is known gives its targets values, unless the inputs are
to blame. -/
theorem gives_apply [Fact f.modulus.Prime] (hw : Carries f known w) {c : Computation}
    (hproper : c.Proper) (hsources : ∀ i ∈ c.sources, known i) (hone : oneIndex ∉ c.targets) :
    Gives (Carries f fun i => known i ∨ i ∈ c.targets) (apply f w c) := by
  cases c with
  | linear target terms =>
      rw [apply_linear (hw.covers hsources)]
      exact hw.set hone (canonical_val _)
  | product target left right =>
      obtain ⟨hl, hr⟩ := List.forall_mem_append.mp hsources
      rw [apply_product (hw.covers hl) (hw.covers hr)]
      exact hw.set hone (canonical_val _)
  | quotient target num den =>
      obtain ⟨hn, hd⟩ := List.forall_mem_append.mp hsources
      by_cases hzero : den.value (w.residue f.modulus) = 0
      · rw [apply_quotient_zero (hw.covers hd) hzero]
        exact trivial
      · rw [apply_quotient (hw.covers hn) (hw.covers hd) hzero]
        exact hw.set hone (canonical_val _)
  | subtract target left right offset =>
      obtain ⟨hl, hr, -⟩ := by
        simpa only [Computation.sources, List.forall_mem_cons] using hsources
      obtain ⟨l, hread, -⟩ := hw.read_eq_ok hl
      obtain ⟨r, hread', -⟩ := hw.read_eq_ok hr
      simp only [apply, hread, hread', bind, Except.bind]
      split
      · exact trivial
      · exact hw.set hone (f.canonical_reduce _)
  | bits source targets count =>
      obtain ⟨v, hread, hv⟩ := hw.read_eq_ok (hsources source List.mem_cons_self)
      obtain ⟨n, rfl⟩ := Int.eq_ofNat_of_zero_le hv.1
      simp only [apply, hread, bind, Except.bind]
      by_cases hlt : n < 2 ^ count
      · rw [Bits.decompose_of_lt hlt]
        exact hw.setAll hone ((Bits.length_lowBits count n).trans hproper.symm)
          fun b hb => canonical_of_mem_lowBits hb
      · rw [Bits.decompose_of_le (Nat.not_lt.mp hlt)]
        exact trivial
  | unknown name => cases hproper

/-- **Runs.** A schedule in order gives all its targets values, unless the inputs are to blame. -/
theorem gives_applyAll [Fact f.modulus.Prime] {cs : List Computation} (horder : InOrder known cs)
    (hone : oneIndex ∉ filled cs) (hw : Carries f known w) :
    Gives (Carries f (After known cs)) (applyAll f cs w) := by
  induction cs generalizing known w with
  | nil =>
      rw [after_nil]
      exact hw
  | cons c rest ih =>
      obtain ⟨hproper, hsources, hrest⟩ := horder
      rw [filled, List.flatMap_cons, List.mem_append, not_or] at hone
      have hstep := gives_apply hw hproper hsources hone.1
      rw [← filled_singleton c] at hstep
      rw [← List.singleton_append, after_append]
      exact hstep.bind fun w₁ hw₁ => ih hrest hone.2 hw₁

theorem gives_parseAll [NeZero f.modulus] (values : List Value) :
    Gives (fun zs => zs.length = values.length ∧ ∀ z ∈ zs, Canonical f.modulus z)
      (parseAll f values) := by
  cases h : parseAll f values with
  | error e =>
      obtain ⟨v, -, hv⟩ := exists_of_mapM_eq_error h
      cases hparse : f.parse v with
      | error fault =>
          rw [hparse] at hv
          cases hv
          exact trivial
      | ok x =>
          rw [hparse] at hv
          cases hv
  | ok zs => exact ⟨length_of_parseAll h, canonical_of_parseAll h⟩

theorem carries_start [Fact f.modulus.Prime] {zs zs' : List Int}
    (hcanonical : ∀ z ∈ zs ++ zs', Canonical f.modulus z) :
    Carries f (· ≤ zs.length + zs'.length) (start zs zs') :=
  ⟨get?_start_zero zs zs', fun _ _ => canonical_start hcanonical,
    fun _ => isSome_start_iff.trans Nat.lt_one_add_iff⟩

end Carries

/-- **Generation.** For a system with this layout, generation gives every index a representative,
unless the inputs are to blame. -/
theorem gives_witness {f : PrimeField} [Fact f.modulus.Prime] {sys : ConstraintSystem} {k m : Nat}
    (h : sys.LaidOut k m) (privateValues publicValues : List Value) :
    Gives (Carries f (· < sys.numWitnesses)) (sys.witness f privateValues publicValues) := by
  have hk : sys.privateInputs.length = k := by rw [h.privateInputs, List.length_range']
  have hm : sys.publicInputs.length = m := by rw [h.publicInputs, List.length_range']
  rw [ConstraintSystem.witness, hk, hm]
  split
  · exact trivial
  rename_i hlen
  split
  · exact trivial
  rename_i hlen'
  refine (gives_parseAll privateValues).bind fun zs hzs => ?_
  refine (gives_parseAll publicValues).bind fun zs' hzs' => ?_
  have hsize : zs.length = k := hzs.1.trans (not_not.mp hlen)
  have hsize' : zs'.length = m := hzs'.1.trans (not_not.mp hlen')
  -- the values have the indices of the inputs
  have hinputs : (align (toolchainOrder zs zs')).map (·.1) =
      (sys.privateInputs ++ sys.publicInputs).mergeSort (· ≤ ·) := by
    rw [indices_align, h.privateInputs, h.publicInputs, mergeSort_inputs, hsize, hsize']
  rw [if_neg (not_not.mpr hinputs)]
  have hstart : Carries f (· ≤ k + m) (start zs zs') := by
    rw [← hsize, ← hsize']
    exact carries_start (List.forall_mem_append.mpr ⟨hzs.2, hzs'.2⟩)
  refine (gives_applyAll h.inOrder h.one_notMem_filled hstart).bind fun w hw => ?_
  rw [h.after_computations] at hw
  have hcomplete : (List.range sys.numWitnesses).find? (fun i => (w.get? i).isNone) = none := by
    rw [List.find?_eq_none]
    intro i hi
    rw [Option.isNone_iff_eq_none, ← ne_eq, Option.ne_none_iff_isSome, hw.isSome_iff]
    exact List.mem_range.mp hi
  rw [hcomplete]
  exact hw

/-- **Layout.** The system of a circuit has its inputs behind the constant, private ones first, and
fills each index behind them once, in order.  Each parameter stands for the index behind its place,
and a Noir program of the circuit lists the parameters by their places.  Over any prime field,
generation gives one to index zero and representatives to all indices that there are, or fails by a
fault of its inputs: no index is read without a value, none is left out, and the values fit the
layout. -/
theorem lower_layout (settings : Settings) (c : Circuit) (sys : ConstraintSystem)
    (h : c.lower settings = .ok sys) :
    sys.LaidOut c.privateParams.length c.publicParams.length ∧
    (∃ s, lowerStatements settings c.statements (paramState c) = .ok s ∧ sys = s.system c ∧
      ∀ j name, c.paramNames[j]? = some name →
        (name, ⟨j + 1, false⟩) ∈ s.scope ∧
          (name ∉ c.paramNames.drop (j + 1) → s.lookup? name = some ⟨j + 1, false⟩)) ∧
    (∀ text, Noir.program c = .ok text →
      ∃ rest, text = "fn main(" ++ ", ".intercalate (c.paramNames.zipIdx.map fun entry =>
        entry.1 ++ if entry.2 < c.privateParams.length then ": Field" else ": pub Field") ++
          ") \x7b" ++ rest) ∧
    ∀ (f : PrimeField) [Fact f.modulus.Prime] (privateValues publicValues : List Value),
      (∀ e, sys.witness f privateValues publicValues = .error e → e.OfInputs) ∧
      ∀ w, sys.witness f privateValues publicValues = .ok w →
        Carries f (· < sys.numWitnesses) w := by
  obtain ⟨s, hs, rfl⟩ := lower_eq_ok_iff.mp h
  have hlayout := laidOut_system hs
  refine ⟨hlayout, ⟨s, hs, rfl, fun j name hj => lookup?_param hs hj⟩, fun text htext => ?_, ?_⟩
  · rw [← Noir.parameters_eq]
    exact Noir.head_of_program htext
  · intro f _ privateValues publicValues
    have hgives := gives_witness (f := f) hlayout privateValues publicValues
    constructor
    · intro e he
      rwa [he] at hgives
    · intro w hw
      rwa [hw] at hgives

theorem lower_layout_balance :
    smallBalanceSystem.LaidOut 1 1 ∧
      (∃ w, smallBalanceSystem.witness smallField [.int 6] [.int 3] = .ok w ∧
        Carries smallField (· < smallBalanceSystem.numWitnesses) w) ∧
      ∃ e, smallBalanceSystem.witness smallField [.int 3] [.int 6] = .error e ∧ e.OfInputs := by
  have hlower : balanceCircuit.lower ⟨smallField, 4⟩ = .ok smallBalanceSystem := rfl
  have h := lower_layout ⟨smallField, 4⟩ balanceCircuit smallBalanceSystem hlower
  obtain ⟨s, hs, heq⟩ := lower_eq_ok_iff.mp hlower
  cases hs
  have hgives : ∃ w, smallBalanceSystem.witness smallField [.int 6] [.int 3] = .ok w := by
    rw [heq]
    exact ⟨_, witness_eq_ok_iff.mpr ⟨rfl, rfl, [6], [3], rfl, rfl, rfl, by decide⟩⟩
  -- three less six is negative
  have hfails : Fails (smallBalanceSystem.witness smallField [.int 3] [.int 6]) := by
    rw [fails_iff_not_exists_ok, heq]
    rintro ⟨w, hw⟩
    obtain ⟨-, -, zs, zs', hzs, hzs', hreplay, -⟩ := witness_eq_ok_iff.mp hw
    cases hzs
    cases hzs'
    cases hreplay
  obtain ⟨w, hw⟩ := hgives
  obtain ⟨e, he⟩ := hfails
  refine ⟨h.1, ⟨w, hw, ?_⟩, ⟨e, he, ?_⟩⟩
  · exact (h.2.2.2 smallField [.int 6] [.int 3]).2 w hw
  · exact (h.2.2.2 smallField [.int 3] [.int 6]).1 e he

end Witness

end ArrowCircuit
