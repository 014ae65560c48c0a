import ArrowCircuit.Backend.Direct
import ArrowCircuit.Proofs.Circuit.Inputs
import ArrowCircuit.Proofs.PrimeField.Prime
import ArrowCircuit.Proofs.Witness.Layout

/-!
# Named inputs in a witness

Three orders meet when a witness is made for named inputs.  The values of a group of parameters are
put in the order of the parameters' positions; the lowering binds names by their places in the
declaration; generation goes by places again.  A name is therefore bound to the value of the parameter
whose position is the place of the name (`Circuit.Receives`), which is its own value exactly where
positions and places agree.
-/

namespace ArrowCircuit

/-! ## Positions and places -/

namespace Circuit

/-- The position of each parameter of a group is its place. -/
def InPlace (params : List Param) : Prop :=
  ∀ (j : Nat) (p : Param), params[j]? = some p → p.index = j

/-- In a group, `q` has the place of `p` as its position. -/
def PairedIn (params : List Param) (p q : Param) : Prop :=
  ∃ j, params[j]? = some p ∧ q ∈ params ∧ q.index = j

/-- The index of `p` receives what is supplied for `q`. -/
def Receives (c : Circuit) (p q : Param) : Prop :=
  PairedIn c.privateParams p q ∨ PairedIn c.publicParams p q

theorem getElem?_paramNames_private {c : Circuit} {j : Nat} {p : Param}
    (h : c.privateParams[j]? = some p) : c.paramNames[j]? = some p.name := by
  have hlt : j < (c.privateParams.map (·.name)).length := by
    rw [List.length_map]
    exact (List.getElem?_eq_some_iff.mp h).1
  rw [paramNames, List.getElem?_append_left hlt, List.getElem?_map, h]
  rfl

/-- The names of the public parameters stand behind those of the private ones. -/
theorem getElem?_paramNames_public {c : Circuit} {j : Nat} {p : Param}
    (h : c.publicParams[j]? = some p) :
    c.paramNames[c.privateParams.length + j]? = some p.name := by
  have hle : (c.privateParams.map (·.name)).length ≤ c.privateParams.length + j := by
    rw [List.length_map]
    exact Nat.le_add_right _ j
  rw [paramNames, List.getElem?_append_right hle, List.length_map, Nat.add_sub_cancel_left,
    List.getElem?_map, h]
  rfl

section Group

variable {params : List Param} (h : Positioned params)

include h

/-- Every parameter of a group has one that is paired with it. -/
theorem exists_pairedIn {p : Param} (hp : p ∈ params) : ∃ q, PairedIn params p q := by
  obtain ⟨j, hj⟩ := List.mem_iff_getElem?.mp hp
  have hmem : j ∈ params.map (·.index) :=
    h.mem_iff.mpr (List.mem_range.mpr (List.getElem?_eq_some_iff.mp hj).1)
  obtain ⟨q, hq, hindex⟩ := List.mem_map.mp hmem
  exact ⟨q, j, hj, hq, hindex⟩

/-- Where positions are places, a parameter is paired with itself. -/
theorem eq_of_pairedIn (hplace : InPlace params) {p q : Param}
    (hpq : PairedIn params p q) : p = q := by
  obtain ⟨j, hj, hq, hindex⟩ := hpq
  have hp := getElem?_mergeSort_index h (List.mem_of_getElem? hj)
  have hq := getElem?_mergeSort_index h hq
  rw [hplace j p hj] at hp
  rw [hindex, hp] at hq
  exact Option.some.inj hq

end Group

end Circuit

/-! ## Values in the witness -/

namespace Witness

open Lowering Circuit

/-- The number that a value supplied under a name is read as. -/
def supplied (f : PrimeField) (m : InputMap Value) (name : String) : Option Int :=
  (m.get? name).bind fun v => (f.parse v).toOption.map (·.value)

/-- The index that a parameter is bound to holds the number supplied under a name. -/
def Holds (f : PrimeField) (m : InputMap Value) (s : State) (w : Assignment) (p : Param)
    (name : String) : Prop :=
  ∃ i v e, s.lookup? p.name = some ⟨i, false⟩ ∧ m.get? name = some v ∧ f.parse v = .ok e ∧
    w.get? i = some e.value

section Supplied

variable {f : PrimeField} {m : InputMap Value} {params : List Param}

/-- Numbers that are read off the values of a group stand at the positions of its parameters. -/
theorem getElem?_of_parseAll (hpositioned : Positioned params)
    (hnames : ∀ p ∈ params, ∃ v, m.get? p.name = some v) {zs : List Int}
    (h : parseAll f (groupValues m params) = .ok zs) {q : Param} (hq : q ∈ params) :
    ∃ v e, m.get? q.name = some v ∧ f.parse v = .ok e ∧ zs[q.index]? = some e.value := by
  have hread := parseAll_eq_ok_iff.mp h
  obtain ⟨v, hv⟩ := hnames q hq
  have hvalue := getElem?_groupValues hnames hpositioned hq
  rw [hv] at hvalue
  obtain ⟨hlt, hget⟩ := List.getElem?_eq_some_iff.mp hvalue
  have hlt' : q.index < zs.length := hread.length_eq ▸ hlt
  obtain ⟨e, he, hz⟩ := hread.get hlt hlt'
  simp only [List.get_eq_getElem, hget] at he hz
  refine ⟨v, e, hv, he, ?_⟩
  rw [List.getElem?_eq_getElem hlt', hz]

/-- The values of a group are read if all values are. -/
theorem exists_parseAll_groupValues (hread : ∀ entry ∈ m, ∃ e, f.parse entry.2 = .ok e)
    (params : List Param) : ∃ zs, parseAll f (groupValues m params) = .ok zs := by
  have hvalues : ∀ v ∈ groupValues m params, ∃ z, ∃ e, f.parse v = .ok e ∧ e.value = z := by
    intro v hv
    obtain ⟨p, -, hp⟩ := List.mem_filterMap.mp hv
    obtain ⟨l, r, hm, -⟩ := List.lookup_eq_some_iff.mp hp
    obtain ⟨e, he⟩ := hread (p.name, v) (by rw [hm]; exact List.mem_append_right _ List.mem_cons_self)
    exact ⟨e.value, e, he, rfl⟩
  obtain ⟨zs, hzs⟩ := exists_forall₂ hvalues
  exact ⟨zs, parseAll_eq_ok_iff.mpr hzs⟩

variable {s : State} {w : Assignment} {p : Param} {name name' : String}

theorem Holds.supplied_eq (h : Holds f m s w p name) (h' : Holds f m s w p name') :
    supplied f m name = supplied f m name' := by
  obtain ⟨i, v, e, hlookup, hv, he, hget⟩ := h
  obtain ⟨i', v', e', hlookup', hv', he', hget'⟩ := h'
  cases hlookup.symm.trans hlookup'
  rw [supplied, supplied, hv, hv', Option.bind_some, Option.bind_some, he, he']
  exact hget.symm.trans hget'

/-- What is read as the same number is held alike. -/
theorem Holds.of_supplied_eq (h : Holds f m s w p name)
    (heq : supplied f m name' = supplied f m name) : Holds f m s w p name' := by
  obtain ⟨i, v, e, hlookup, hv, he, hget⟩ := h
  have hsome : supplied f m name' = some e.value := by
    rw [heq, supplied, hv, Option.bind_some, he]
    rfl
  obtain ⟨v', hv', hread⟩ := Option.bind_eq_some_iff.mp hsome
  cases he' : f.parse v' with
  | error _ =>
      rw [he'] at hread
      cases hread
  | ok e' =>
      rw [he'] at hread
      exact ⟨i, v', e', hlookup, hv', he', hget.trans hread.symm⟩

end Supplied

section Generated

variable {f : PrimeField} {bits : Nat} {c : Circuit} {s : State}

variable [Fact f.modulus.Prime] {privateValues publicValues : List Value} {w : Assignment}

/-- The indices behind the constant keep the numbers that were read. -/
theorem get?_of_witness (hs : lowerStatements ⟨f, bits⟩ c.statements (paramState c) = .ok s)
    (hw : (s.system c).witness f privateValues publicValues = .ok w) :
    ∃ zs zs', parseAll f privateValues = .ok zs ∧ parseAll f publicValues = .ok zs' ∧
      zs.length = c.privateParams.length ∧
      ∀ j < c.paramNames.length, w.get? (j + 1) = (zs ++ zs')[j]? := by
  obtain ⟨hlen, hlen', zs, zs', hzs, hzs', hreplay, -⟩ := witness_eq_ok_iff.mp hw
  obtain ⟨hadvances, -⟩ := (pursues_start hs hlen hlen' hzs hzs').of_replay hreplay
  refine ⟨zs, zs', hzs, hzs', (length_of_parseAll hzs).trans hlen, fun j hj => ?_⟩
  have hnext : j + 1 < (paramState c).next := by
    rw [paramState_eq, Nat.add_comm j 1]
    exact Nat.add_lt_add_left hj 1
  rw [hadvances.agree (j + 1) hnext, get?_start_succ]

variable {m : InputMap Value}

/-- **What a name is bound to.** The index of a parameter holds the number supplied for the one that it
is paired with. -/
theorem holds_of_receives (hs : lowerStatements ⟨f, bits⟩ c.statements (paramState c) = .ok s)
    (hc : c.WellNumbered) (hm : (m.map (·.1)).Perm c.paramNames)
    (hw : (s.system c).witness f (groupValues m c.privateParams) (groupValues m c.publicParams) =
      .ok w) {p q : Param} (hpq : c.Receives p q) :
    Holds f m s w p q.name := by
  obtain ⟨zs, zs', hzs, hzs', hlen, hget⟩ := get?_of_witness hs hw
  have hprivate : ∀ p ∈ c.privateParams, ∃ v, m.get? p.name = some v := fun p hp =>
    exists_get?_of_mem (hm.mem_iff.mpr (List.mem_append_left _ (List.mem_map_of_mem hp)))
  have hpublic : ∀ p ∈ c.publicParams, ∃ v, m.get? p.name = some v := fun p hp =>
    exists_get?_of_mem (hm.mem_iff.mpr (List.mem_append_right _ (List.mem_map_of_mem hp)))
  -- an index that a name stands for holds what generation read at the place of the name
  have hplace : ∀ {i : Nat} {v : Value} {e : Element}, c.paramNames[i]? = some p.name →
      m.get? q.name = some v → f.parse v = .ok e → (zs ++ zs')[i]? = some e.value →
      Holds f m s w p q.name := by
    intro i v e hname hv he hz
    refine ⟨i + 1, v, e, lookup?_of_nodup hs hc.names hname, hv, he, ?_⟩
    rw [hget i (List.getElem?_eq_some_iff.mp hname).1, hz]
  rcases hpq with ⟨j, hj, hq, hindex⟩ | ⟨j, hj, hq, hindex⟩
  · have hlt : j < c.privateParams.length := (List.getElem?_eq_some_iff.mp hj).1
    obtain ⟨v, e, hv, he, hz⟩ := getElem?_of_parseAll hc.privatePositions hprivate hzs hq
    refine hplace (getElem?_paramNames_private hj) hv he ?_
    rw [List.getElem?_append_left (hlen ▸ hlt), ← hindex, hz]
  · obtain ⟨v, e, hv, he, hz⟩ := getElem?_of_parseAll hc.publicPositions hpublic hzs' hq
    refine hplace (getElem?_paramNames_public hj) hv he ?_
    rw [List.getElem?_append_right (hlen ▸ Nat.le_add_right _ _), hlen, Nat.add_sub_cancel_left,
      ← hindex, hz]

end Generated

/-- Every parameter is paired with one. -/
theorem exists_receives {c : Circuit} (hc : c.WellNumbered) {p : Param}
    (hp : p ∈ c.privateParams ++ c.publicParams) : ∃ q, c.Receives p q := by
  rcases List.mem_append.mp hp with hp | hp
  · obtain ⟨q, hq⟩ := exists_pairedIn hc.privatePositions hp
    exact ⟨q, .inl hq⟩
  · obtain ⟨q, hq⟩ := exists_pairedIn hc.publicPositions hp
    exact ⟨q, .inr hq⟩

theorem mem_of_receives {c : Circuit} {p q : Param} (h : c.Receives p q) :
    p ∈ c.privateParams ++ c.publicParams := by
  rcases h with ⟨j, hj, -⟩ | ⟨j, hj, -⟩
  · exact List.mem_append_left _ (List.mem_of_getElem? hj)
  · exact List.mem_append_right _ (List.mem_of_getElem? hj)

/-- The direct backend puts the values in order and generates. -/
theorem witness_eq_ok {c : Direct.Compiled} {m : InputMap Value} {w : Assignment}
    {privateValues publicValues : List Value}
    (hordered : c.circuit.orderedValues m = .ok (privateValues, publicValues))
    (hw : c.system.witness .scalar privateValues publicValues = .ok w) :
    Direct.witness c m = .ok w := by
  rw [Direct.witness, hordered]
  exact congrArg (Except.mapError Fault.witness) hw

theorem system_witness_of_witness {c : Direct.Compiled} {m : InputMap Value} {w : Assignment}
    (hm : (m.map (·.1)).Perm c.circuit.paramNames) (hw : Direct.witness c m = .ok w) :
    c.system.witness .scalar (groupValues m c.circuit.privateParams)
      (groupValues m c.circuit.publicParams) = .ok w := by
  rw [Direct.witness, orderedValues_eq_ok hm] at hw
  exact mapError_eq_ok hw

/-- **Named inputs.** For a compiled circuit with distinct names and positions that are the places of
each group in some order, and values under exactly these names that are all read: the values are put in
order, and in a witness made from them the index of a parameter holds the number supplied for the
parameter whose position is its place.  Each index holds the number supplied under its own name exactly
when paired parameters are supplied with the same number, and in particular when every position is the
place itself. -/
theorem holds_own_name_iff (compiled : Direct.Compiled) (hc : compiled.circuit.WellNumbered)
    (bits : Nat) (hlower : compiled.circuit.lower ⟨.scalar, bits⟩ = .ok compiled.system)
    (m : InputMap Value) (hm : (m.map (·.1)).Perm compiled.circuit.paramNames)
    (hread : ∀ entry ∈ m, ∃ e, PrimeField.scalar.parse entry.2 = .ok e) :
    (∃ privateValues publicValues zs zs',
      compiled.circuit.orderedValues m = .ok (privateValues, publicValues) ∧
      parseAll .scalar privateValues = .ok zs ∧ parseAll .scalar publicValues = .ok zs') ∧
    ∃ s, lowerStatements ⟨.scalar, bits⟩ compiled.circuit.statements (paramState compiled.circuit) =
        .ok s ∧ compiled.system = s.system compiled.circuit ∧
      ∀ w, Direct.witness compiled m = .ok w →
        (∀ p q, compiled.circuit.Receives p q → Holds .scalar m s w p q.name) ∧
        ((∀ p ∈ compiled.circuit.privateParams ++ compiled.circuit.publicParams,
            Holds .scalar m s w p p.name) ↔
          ∀ p q, compiled.circuit.Receives p q →
            supplied .scalar m p.name = supplied .scalar m q.name) ∧
        (InPlace compiled.circuit.privateParams → InPlace compiled.circuit.publicParams →
          ∀ p ∈ compiled.circuit.privateParams ++ compiled.circuit.publicParams,
            Holds .scalar m s w p p.name) := by
  obtain ⟨s, hs, hsystem⟩ := lower_eq_ok_iff.mp hlower
  obtain ⟨zs, hzs⟩ := exists_parseAll_groupValues hread compiled.circuit.privateParams
  obtain ⟨zs', hzs'⟩ := exists_parseAll_groupValues hread compiled.circuit.publicParams
  refine ⟨⟨_, _, zs, zs', orderedValues_eq_ok hm, hzs, hzs'⟩, s, hs, hsystem, fun w hw => ?_⟩
  have hw := system_witness_of_witness hm hw
  rw [hsystem] at hw
  have hholds : ∀ p q, compiled.circuit.Receives p q → Holds .scalar m s w p q.name :=
    fun p q hpq => holds_of_receives hs hc hm hw hpq
  refine ⟨hholds, ⟨fun hown p q hpq => ?_, fun hsame p hp => ?_⟩, fun hprivate hpublic p hp => ?_⟩
  · exact (hown p (mem_of_receives hpq)).supplied_eq (hholds p q hpq)
  · obtain ⟨q, hpq⟩ := exists_receives hc hp
    exact (hholds p q hpq).of_supplied_eq (hsame p q hpq)
  · obtain ⟨q, hpq⟩ := exists_receives hc hp
    have heq : p = q := hpq.elim (eq_of_pairedIn hc.privatePositions hprivate)
      (eq_of_pairedIn hc.publicPositions hpublic)
    have hq := hholds p q hpq
    rwa [← heq] at hq

/-- A circuit whose private parameters are declared in the reverse order of their positions. -/
def reversedCircuit : Circuit where
  publicParams := [⟨"expected", 0⟩]
  privateParams := [⟨"secret", 1⟩, ⟨"salt", 0⟩]
  statements := [.assert (.binary .eq (.identifier "secret") (.identifier "expected")) none]

/-- The circuit as it is compiled. -/
def reversedCompiled : Direct.Compiled where
  circuit := reversedCircuit
  noir := ""
  system := (reversedCircuit.lower ⟨.scalar, 64⟩).toOption.getD default

/-- Inputs for the circuit, in the order of the declaration. -/
def reversedInputs : InputMap Value :=
  [("secret", .int 20), ("salt", .int 10), ("expected", .int 10)]

/-- The index of `secret` holds what was supplied for `salt`, and the constraints, which equate it with
`expected`, are satisfied although `secret` was given another number. -/
theorem holds_own_name_reversed :
    ∃ s w, Direct.witness reversedCompiled reversedInputs = .ok w ∧
      Holds .scalar reversedInputs s w ⟨"secret", 1⟩ "salt" ∧
      (∀ k ∈ reversedCompiled.system.constraints, k.residual scalarModulus w = .ok 0) ∧
      ¬ ∀ p ∈ reversedCircuit.privateParams ++ reversedCircuit.publicParams,
        Holds .scalar reversedInputs s w p p.name := by
  have hread : ∀ entry ∈ reversedInputs, ∃ e, PrimeField.scalar.parse entry.2 = .ok e := by
    intro entry hentry
    simp only [reversedInputs, List.mem_cons, List.not_mem_nil, or_false] at hentry
    rcases hentry with rfl | rfl | rfl <;> exact ⟨_, rfl⟩
  have hlower : reversedCircuit.lower ⟨.scalar, 64⟩ = .ok reversedCompiled.system := rfl
  have hc : reversedCircuit.WellNumbered := ⟨by decide, by decide, by decide⟩
  have hnames : (reversedInputs.map (·.1)).Perm reversedCircuit.paramNames := by decide
  obtain ⟨-, s, -, -, hall⟩ :=
    holds_own_name_iff reversedCompiled hc 64 hlower reversedInputs hnames hread
  have hw : Direct.witness reversedCompiled reversedInputs =
      .ok ⟨[(0, 1), (1, 10), (2, 20), (3, 10)]⟩ := by
    have hordered : reversedCircuit.orderedValues reversedInputs =
        .ok ([.int 10, .int 20], [.int 10]) :=
      orderedValues_eq_ok_of_get? hc.privatePositions hc.publicPositions hnames ⟨rfl, rfl⟩
        (List.forall_mem_cons.mpr ⟨rfl, List.forall_mem_singleton.mpr rfl⟩)
        (List.forall_mem_singleton.mpr rfl)
    obtain ⟨_, hs, heq⟩ := lower_eq_ok_iff.mp hlower
    cases hs
    refine witness_eq_ok hordered ?_
    rw [heq]
    exact witness_eq_ok_iff.mpr ⟨rfl, rfl, [10, 20], [10], rfl, rfl, rfl, by decide⟩
  obtain ⟨hholds, hiff, -⟩ := hall _ hw
  have hpaired : reversedCircuit.Receives ⟨"secret", 1⟩ ⟨"salt", 0⟩ :=
    .inl ⟨0, rfl, by decide, rfl⟩
  refine ⟨s, _, hw, hholds _ _ hpaired, by decide +kernel, fun hown => ?_⟩
  exact absurd (hiff.mp hown _ _ hpaired) (by decide)

end Witness

end ArrowCircuit
