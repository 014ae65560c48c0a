import ArrowCircuit.Circuit.Inputs
import Mathlib.Data.List.Forall2
import Mathlib.Data.List.Sort

/-!
# Named inputs and positions

Inputs go from positions to names by the position of each parameter, and back by sorting the parameters
of a group by their positions.  Where the positions of a group are its places in some order and no name
occurs twice, in neither group, the two are inverse to each other.
-/

namespace ArrowCircuit

/-! ## Maps -/

namespace InputMap

variable {α : Type}

/-- The names of a map, in the order in which they were first given. -/
def names (m : InputMap α) : List String := m.map (·.1)

theorem get?_cons (e : String × α) (m : InputMap α) (name : String) :
    get? (e :: m) name = if name = e.1 then some e.2 else m.get? name := by
  obtain ⟨key, v⟩ := e
  by_cases h : name = key
  · simp [get?, h]
  · simp [get?, List.lookup_cons, beq_eq_false_iff_ne.mpr h, h]

@[simp] theorem get?_insert (m : InputMap α) (name other : String) (v : α) :
    (m.insert name v).get? other = if other = name then some v else m.get? other := by
  induction m with
  | nil => exact get?_cons (name, v) [] other
  | cons e rest ih =>
      rw [insert]
      by_cases he : e.1 = name
      · rw [if_pos he, get?_cons, get?_cons, he]
        by_cases h : other = name
        · rw [if_pos h, if_pos h]
        · rw [if_neg h, if_neg h, if_neg h]
      · rw [if_neg he, get?_cons, get?_cons, ih]
        by_cases h : other = e.1
        · -- the name of the entry is another one
          rw [if_pos h, if_neg fun heq => he (h.symm.trans heq), if_pos h]
        · rw [if_neg h, if_neg h]

/-- A new name goes to the end. -/
theorem names_insert {m : InputMap α} {name : String} (h : name ∉ m.names) (v : α) :
    (m.insert name v).names = m.names ++ [name] := by
  induction m with
  | nil => rfl
  | cons e rest ih =>
      simp only [names, List.map_cons, List.mem_cons, not_or] at h
      rw [insert, if_neg fun heq => h.1 heq.symm, names, List.map_cons, ← names, ih h.2]
      rfl

/-- A map has a value for each of its names, and for no others. -/
theorem isSome_get?_iff {m : InputMap α} {name : String} :
    (m.get? name).isSome = true ↔ name ∈ m.names := by
  rw [get?, List.lookup_isSome_iff, names, List.mem_map]
  simp only [beq_iff_eq, eq_comm (a := name)]

theorem get?_of_notMem {m : InputMap α} {name : String} (h : name ∉ m.names) :
    m.get? name = none := by
  rw [← Option.not_isSome_iff_eq_none, isSome_get?_iff]
  exact h

end InputMap

namespace Circuit

/-! ## Positions -/

/-- The positions of a group of parameters are the places in the group, in some order. -/
def Positioned (params : List Param) : Prop :=
  (params.map (·.index)).Perm (List.range params.length)

instance (params : List Param) : Decidable (Positioned params) :=
  inferInstanceAs (Decidable (List.Perm _ _))

/-- Distinct names, and positions that are the places of each group in some order. -/
structure WellNumbered (c : Circuit) : Prop where
  names : c.paramNames.Nodup
  privatePositions : Positioned c.privateParams
  publicPositions : Positioned c.publicParams

/-- Sorting by position puts positions in order. -/
theorem pairwise_mergeSort_index (params : List Param) :
    (params.mergeSort fun p q => p.index ≤ q.index).Pairwise
      fun p q => decide (p.index ≤ q.index) = true := by
  apply List.pairwise_mergeSort
  · intro p q r hpq hqr
    rw [decide_eq_true_iff] at hpq hqr ⊢
    exact Nat.le_trans hpq hqr
  · intro p q
    rw [Bool.or_eq_true, decide_eq_true_iff, decide_eq_true_iff]
    exact Nat.le_total _ _

section Group

variable {params : List Param} (h : Positioned params)

include h

/-- Sorted by position, a parameter stands at its position. -/
theorem getElem?_mergeSort_index {q : Param} (hq : q ∈ params) :
    (params.mergeSort fun p q => p.index ≤ q.index)[q.index]? = some q := by
  have hperm := List.mergeSort_perm params fun p q => decide (p.index ≤ q.index)
  have hsorted : ((params.mergeSort fun p q => p.index ≤ q.index).map (·.index)) =
      List.range params.length := by
    refine List.Perm.eq_of_pairwise' (r := (· ≤ ·)) ?_ List.pairwise_le_range
      ((hperm.map Param.index).trans h)
    rw [List.pairwise_map]
    exact (pairwise_mergeSort_index params).imp fun h => of_decide_eq_true h
  obtain ⟨j, hj⟩ := List.mem_iff_getElem?.mp (hperm.mem_iff.mpr hq)
  have hindex : (List.range params.length)[j]? = some q.index := by
    rw [← hsorted, List.getElem?_map, hj]
    rfl
  obtain ⟨_, hlt⟩ := List.getElem?_eq_some_iff.mp hindex
  rw [List.getElem_range] at hlt
  rwa [← hlt]

/-- Every place of a group is the position of a parameter, and no other number is. -/
theorem Positioned.lt_iff {j : Nat} : j < params.length ↔ ∃ p ∈ params, p.index = j := by
  rw [← List.mem_range, ← h.mem_iff, List.mem_map]

end Group

/-! ## Values in order -/

section Values

variable {α : Type} {m : InputMap α}

/-- A map has a value for each of its names. -/
theorem exists_get?_of_mem {name : String} (h : name ∈ m.map (·.1)) : ∃ v, m.get? name = some v :=
  Option.isSome_iff_exists.mp (InputMap.isSome_get?_iff.mpr h)

theorem forall₂_groupValues {params : List Param}
    (h : ∀ p ∈ params, ∃ v, m.get? p.name = some v) :
    List.Forall₂ (fun p v => m.get? p.name = some v)
      (params.mergeSort fun p q => p.index ≤ q.index) (groupValues m params) := by
  have hsorted : ∀ p ∈ params.mergeSort fun p q => p.index ≤ q.index, ∃ v, m.get? p.name = some v :=
    fun p hp => h p (List.mem_mergeSort.mp hp)
  rw [groupValues]
  generalize params.mergeSort (fun p q => p.index ≤ q.index) = ps at hsorted
  induction ps with
  | nil => exact .nil
  | cons p ps ih =>
      obtain ⟨hp, hps⟩ := List.forall_mem_cons.mp hsorted
      obtain ⟨v, hv⟩ := hp
      have hcons : (p :: ps).filterMap (fun p => m.get? p.name) =
          v :: ps.filterMap fun p => m.get? p.name := List.filterMap_cons_some hv
      rw [hcons]
      exact .cons hv (ih hps)

section Group

variable {params : List Param} (hnames : ∀ p ∈ params, ∃ v, m.get? p.name = some v)

include hnames

theorem length_groupValues : (groupValues m params).length = params.length := by
  rw [← (forall₂_groupValues hnames).length_eq, List.length_mergeSort]

/-- The value under the name of a parameter stands at its position. -/
theorem getElem?_groupValues (hpositioned : Positioned params) {q : Param} (hq : q ∈ params) :
    (groupValues m params)[q.index]? = m.get? q.name := by
  have hvalues := forall₂_groupValues hnames
  obtain ⟨hlt, hget⟩ := List.getElem?_eq_some_iff.mp (getElem?_mergeSort_index hpositioned hq)
  have hlt' : q.index < (groupValues m params).length := hvalues.length_eq ▸ hlt
  have hvalue := hvalues.get hlt hlt'
  simp only [List.get_eq_getElem, hget] at hvalue
  rw [hvalue, List.getElem?_eq_getElem hlt']

end Group

/-- Values that stand under the names as they stand at the positions are put in their order again. -/
theorem groupValues_eq {params : List Param} {values : List α} (hpositioned : Positioned params)
    (hlength : values.length = params.length)
    (hvalues : ∀ p ∈ params, m.get? p.name = values[p.index]?) : groupValues m params = values := by
  have hnames : ∀ p ∈ params, ∃ v, m.get? p.name = some v := by
    intro p hp
    have hlt : p.index < values.length := hlength ▸ hpositioned.lt_iff.mpr ⟨p, hp, rfl⟩
    exact ⟨values[p.index], by rw [hvalues p hp, List.getElem?_eq_getElem hlt]⟩
  have hsame : (groupValues m params).length = values.length := by
    rw [length_groupValues hnames, hlength]
  refine List.ext_getElem? ?_
  intro j
  by_cases hj : j < values.length
  · obtain ⟨p, hp, rfl⟩ := hpositioned.lt_iff.mp (hlength ▸ hj)
    rw [getElem?_groupValues hnames hpositioned hp, hvalues p hp]
  · rw [List.getElem?_eq_none (by omega), List.getElem?_eq_none (by omega)]

/-- **Values in order.** A map has its values put in order exactly if its names are those of the
parameters. -/
theorem orderedValues_eq_ok_iff {c : Circuit} {values : List α × List α} :
    c.orderedValues m = .ok values ↔ (∀ name, name ∈ m.names ↔ name ∈ c.paramNames) ∧
      values = (groupValues m c.privateParams, groupValues m c.publicParams) := by
  have hextra : ((m.map (·.1)).filter fun name => decide (name ∉ c.paramNames)) = [] ↔
      ∀ name ∈ m.names, name ∈ c.paramNames := by
    rw [List.filter_eq_nil_iff]
    simp only [decide_eq_true_iff, not_not]
    rfl
  have hmissing : (c.paramNames.filter fun name => (m.get? name).isNone) = [] ↔
      ∀ name ∈ c.paramNames, name ∈ m.names := by
    rw [List.filter_eq_nil_iff]
    simp only [Option.isNone_iff_eq_none, ← Option.not_isSome_iff_eq_none, not_not,
      InputMap.isSome_get?_iff]
  constructor
  · intro h
    unfold orderedValues at h
    dsimp only at h
    split at h
    · cases h
    · next hnone =>
        split at h
        · cases h
        · next hnone' =>
            cases h
            rw [Bool.not_eq_true, Bool.not_eq_false', List.isEmpty_iff] at hnone hnone'
            exact ⟨fun name => ⟨hextra.mp hnone name, hmissing.mp hnone' name⟩, rfl⟩
  · rintro ⟨hnames, rfl⟩
    have hnone := hextra.mpr fun name => (hnames name).mp
    have hnone' := hmissing.mpr fun name => (hnames name).mpr
    simp only [orderedValues, hnone, hnone', List.isEmpty_nil, Bool.not_true, Bool.false_eq_true,
      if_false]

/-- A map with exactly the names of the parameters has its values put in order. -/
theorem orderedValues_eq_ok {c : Circuit} (h : (m.map (·.1)).Perm c.paramNames) :
    c.orderedValues m = .ok (groupValues m c.privateParams, groupValues m c.publicParams) :=
  orderedValues_eq_ok_iff.mpr ⟨fun _ => h.mem_iff, rfl⟩

/-- Values at the positions of well-numbered parameters come out in order. -/
theorem orderedValues_eq_ok_of_get? {c : Circuit} {privateValues publicValues : List α}
    (hprivate : Positioned c.privateParams) (hpublic : Positioned c.publicParams)
    (hnames : (m.map (·.1)).Perm c.paramNames)
    (hlengths : privateValues.length = c.privateParams.length ∧
      publicValues.length = c.publicParams.length)
    (hprivateValues : ∀ p ∈ c.privateParams, m.get? p.name = privateValues[p.index]?)
    (hpublicValues : ∀ p ∈ c.publicParams, m.get? p.name = publicValues[p.index]?) :
    c.orderedValues m = .ok (privateValues, publicValues) := by
  rw [orderedValues_eq_ok hnames, groupValues_eq hprivate hlengths.1 hprivateValues,
    groupValues_eq hpublic hlengths.2 hpublicValues]

/-- Values that can be put in order have one under each name of a parameter. -/
theorem of_orderedValues_eq_ok {c : Circuit} {values : List α × List α}
    (h : c.orderedValues m = .ok values) :
    values = (groupValues m c.privateParams, groupValues m c.publicParams) ∧
      ∀ name ∈ c.paramNames, ∃ v, m.get? name = some v := by
  obtain ⟨hnames, hvalues⟩ := orderedValues_eq_ok_iff.mp h
  exact ⟨hvalues, fun name hname => exists_get?_of_mem ((hnames name).mpr hname)⟩

end Values

/-! ## Values under names -/

section Entering

variable {α : Type} {values : List α}

/-- The values of a group are entered behind what a map has, each under the name of the parameter at
whose position it stands. -/
theorem exists_enter_eq {params : List Param} (hnodup : (params.map (·.name)).Nodup)
    (hindex : ∀ p ∈ params, p.index < values.length) {m : InputMap α}
    (hnew : ∀ p ∈ params, p.name ∉ m.names) :
    ∃ m', enter values params m = .ok m' ∧ m'.names = m.names ++ params.map (·.name) ∧
      (∀ p ∈ params, m'.get? p.name = values[p.index]?) ∧
      ∀ name, name ∉ params.map (·.name) → m'.get? name = m.get? name := by
  induction params generalizing m with
  | nil =>
      refine ⟨m, rfl, (List.append_nil _).symm, ?_, fun _ _ => rfl⟩
      intro p hp
      exact absurd hp List.not_mem_nil
  | cons p rest ih =>
      obtain ⟨hhead, hnodup⟩ := List.nodup_cons.mp hnodup
      obtain ⟨hp, hindex⟩ := List.forall_mem_cons.mp hindex
      obtain ⟨hfresh, hnew⟩ := List.forall_mem_cons.mp hnew
      have hvalue : values[p.index]? = some values[p.index] := List.getElem?_eq_getElem hp
      have hnames : (m.insert p.name values[p.index]).names = m.names ++ [p.name] :=
        InputMap.names_insert hfresh _
      have hrest : ∀ q ∈ rest, q.name ∉ (m.insert p.name values[p.index]).names := by
        intro q hq
        rw [hnames, List.mem_append, List.mem_singleton]
        rintro (hold | heq)
        · exact hnew q hq hold
        · exact hhead (List.mem_map.mpr ⟨q, hq, heq⟩)
      obtain ⟨m', hm', hnames', hget, hother⟩ := ih hnodup hindex hrest
      refine ⟨m', ?_, ?_, ?_, ?_⟩
      · rw [enter, hvalue]
        exact hm'
      · rw [hnames', hnames, List.append_assoc]
        rfl
      · -- the names behind it are others, so that its value stays
        refine List.forall_mem_cons.mpr ⟨?_, hget⟩
        rw [hother p.name hhead, InputMap.get?_insert, if_pos rfl, hvalue]
      · intro name hname
        rw [List.map_cons, List.mem_cons, not_or] at hname
        rw [hother name hname.2, InputMap.get?_insert, if_neg hname.1]

variable {c : Circuit} (hc : c.WellNumbered) {publicValues privateValues : List α}

include hc

/-- **Values under names.** Every value is found under the name of the parameter at whose position it
stands. -/
theorem exists_inputMap_eq (hpublic : publicValues.length = c.publicParams.length)
    (hprivate : privateValues.length = c.privateParams.length) :
    ∃ m, c.inputMap publicValues privateValues = .ok m ∧ m.names = c.paramNames ∧
      (∀ p ∈ c.privateParams, m.get? p.name = privateValues[p.index]?) ∧
      ∀ p ∈ c.publicParams, m.get? p.name = publicValues[p.index]? := by
  obtain ⟨hnodup, hnodup', hdisjoint⟩ := List.nodup_append.mp hc.names
  have hindex : ∀ p ∈ c.privateParams, p.index < privateValues.length := fun p hp =>
    hprivate ▸ hc.privatePositions.lt_iff.mpr ⟨p, hp, rfl⟩
  have hindex' : ∀ p ∈ c.publicParams, p.index < publicValues.length := fun p hp =>
    hpublic ▸ hc.publicPositions.lt_iff.mpr ⟨p, hp, rfl⟩
  obtain ⟨m, hm, hnames, hget, -⟩ := exists_enter_eq hnodup hindex (m := [])
    fun _ _ => List.not_mem_nil
  have hnames : m.names = c.privateParams.map (·.name) := hnames
  have hnew : ∀ p ∈ c.publicParams, p.name ∉ m.names := by
    intro p hp hold
    rw [hnames] at hold
    exact hdisjoint p.name hold p.name (List.mem_map_of_mem hp) rfl
  obtain ⟨m', hm', hnames', hget', hother⟩ := exists_enter_eq hnodup' hindex' hnew
  refine ⟨m', ?_, ?_, ?_, hget'⟩
  · rw [inputMap, if_neg (not_not.mpr hpublic), if_neg (not_not.mpr hprivate), hm]
    exact hm'
  · rw [hnames', hnames]
    rfl
  · -- no public parameter has the name of a private one
    intro p hp
    have hp' : p.name ∉ c.publicParams.map (·.name) := fun hmem =>
      hdisjoint p.name (List.mem_map_of_mem hp) p.name hmem rfl
    rw [hother p.name hp', hget p hp]

end Entering

/-- **Positions and names.** In a circuit with distinct names and positions that are the places of each
group in some order, values by position are what comes back when they are put under names and in order
again.  A map can be put in order exactly if its names are those of the parameters, and its values by
position give a map with the same values under the same names. -/
theorem inputMap_orderedValues_inverse {α : Type} (c : Circuit) (hc : c.WellNumbered) :
    (∀ publicValues privateValues : List α, publicValues.length = c.publicParams.length →
      privateValues.length = c.privateParams.length →
      ∃ m, c.inputMap publicValues privateValues = .ok m ∧
        c.orderedValues m = .ok (privateValues, publicValues)) ∧
    ∀ m : InputMap α,
      ((∃ values, c.orderedValues m = .ok values) ↔ ∀ name, name ∈ m.names ↔ name ∈ c.paramNames) ∧
      ∀ privateValues publicValues, c.orderedValues m = .ok (privateValues, publicValues) →
        ∃ m', c.inputMap publicValues privateValues = .ok m' ∧ m'.names = c.paramNames ∧
          ∀ name, m'.get? name = m.get? name := by
  constructor
  · intro publicValues privateValues hpublic hprivate
    obtain ⟨m, hm, hnames, hget, hget'⟩ := exists_inputMap_eq hc hpublic hprivate
    refine ⟨m, hm, orderedValues_eq_ok_iff.mpr ⟨fun name => by rw [hnames], ?_⟩⟩
    rw [groupValues_eq hc.privatePositions hprivate hget, groupValues_eq hc.publicPositions hpublic hget']
  · intro m
    refine ⟨⟨?_, ?_⟩, ?_⟩
    · rintro ⟨values, hvalues⟩
      exact (orderedValues_eq_ok_iff.mp hvalues).1
    · intro hnames
      exact ⟨_, orderedValues_eq_ok_iff.mpr ⟨hnames, rfl⟩⟩
    · intro privateValues publicValues h
      obtain ⟨hnames, heq⟩ := orderedValues_eq_ok_iff.mp h
      obtain ⟨rfl, rfl⟩ := Prod.mk.inj heq
      have hprivate : ∀ p ∈ c.privateParams, ∃ v, m.get? p.name = some v := fun p hp =>
        exists_get?_of_mem ((hnames _).mpr (List.mem_append_left _ (List.mem_map_of_mem hp)))
      have hpublic : ∀ p ∈ c.publicParams, ∃ v, m.get? p.name = some v := fun p hp =>
        exists_get?_of_mem ((hnames _).mpr (List.mem_append_right _ (List.mem_map_of_mem hp)))
      obtain ⟨m', hm', hnames', hget, hget'⟩ := exists_inputMap_eq hc (length_groupValues hpublic)
        (length_groupValues hprivate)
      refine ⟨m', hm', hnames', ?_⟩
      intro name
      by_cases hname : name ∈ c.paramNames
      · -- the value went to the position of the parameter and came back from there
        rcases List.mem_append.mp hname with hname | hname
        · obtain ⟨p, hp, rfl⟩ := List.mem_map.mp hname
          rw [hget p hp, getElem?_groupValues hprivate hc.privatePositions hp]
        · obtain ⟨p, hp, rfl⟩ := List.mem_map.mp hname
          rw [hget' p hp, getElem?_groupValues hpublic hc.publicPositions hp]
      · have hname' : name ∉ m.names := fun hmem => hname ((hnames name).mp hmem)
        rw [InputMap.get?_of_notMem (hnames' ▸ hname), InputMap.get?_of_notMem hname']

/-- A circuit whose positions are not in the order of the declaration. -/
def shuffledCircuit : Circuit where
  publicParams := [⟨"root", 1⟩, ⟨"limit", 0⟩]
  privateParams := [⟨"leaf", 2⟩, ⟨"salt", 0⟩, ⟨"path", 1⟩]
  statements := []

/-- The values of the circuit go to other places than those of the declaration, and come back. -/
theorem inputMap_orderedValues_shuffled :
    shuffledCircuit.inputMap [10, 20] [1, 2, 3] =
        .ok [("leaf", 3), ("salt", 1), ("path", 2), ("root", 20), ("limit", 10)] ∧
      shuffledCircuit.orderedValues
        [("leaf", 3), ("salt", 1), ("path", 2), ("root", 20), ("limit", 10)] =
          .ok ([1, 2, 3], [10, 20]) := by
  obtain ⟨hback, -⟩ := inputMap_orderedValues_inverse (α := Nat) shuffledCircuit
    ⟨by decide, by decide, by decide⟩
  obtain ⟨m, hm, hvalues⟩ := hback [10, 20] [1, 2, 3] rfl rfl
  have hmap : shuffledCircuit.inputMap [10, 20] [1, 2, 3] =
      .ok [("leaf", 3), ("salt", 1), ("path", 2), ("root", 20), ("limit", 10)] := by rfl
  rw [hmap] at hm
  cases hm
  exact ⟨hmap, hvalues⟩

end Circuit

end ArrowCircuit
