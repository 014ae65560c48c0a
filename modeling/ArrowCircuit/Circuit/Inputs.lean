import ArrowCircuit.Circuit.Basic

/-!
# Named inputs

Inputs of a circuit are supplied by position, in two groups, or by name. `Circuit.inputMap` goes from
positions to names and `Circuit.orderedValues` back.
-/

namespace ArrowCircuit

/-- Why inputs do not match the parameters. -/
inductive InputFault where
  | publicCount (expected given : Nat)
  | privateCount (expected given : Nat)
  | unknown (names : List String)
  | missing (names : List String)
  /-- A parameter's position lies beyond the values. -/
  | position
  deriving DecidableEq, Repr

/-- The wording of a fault. -/
def InputFault.message : InputFault → String
  | .publicCount expected given =>
    "Expected " ++ Numeral.decimalNat expected ++ " public inputs, got " ++ Numeral.decimalNat given
  | .privateCount expected given =>
    "Expected " ++ Numeral.decimalNat expected ++ " private inputs, got " ++ Numeral.decimalNat given
  | .unknown names => "Unknown input(s): " ++ ", ".intercalate names
  | .missing names => "Missing input(s): " ++ ", ".intercalate names
  | .position => "list index out of range"

/-- Values under names, in the order in which the names were first given. -/
abbrev InputMap (α : Type) := List (String × α)

namespace InputMap

variable {α : Type}

/-- The value under a name. -/
def get? (m : InputMap α) (name : String) : Option α := m.lookup name

/-- Puts a value under a name: at its old place, or at the end when the name is new. -/
def insert (name : String) (value : α) : InputMap α → InputMap α
  | [] => [(name, value)]
  | e :: rest => if e.1 = name then (name, value) :: rest else e :: insert name value rest

/-- The map of a list of entries, of which later ones replace earlier ones. -/
def ofList (entries : List (String × α)) : InputMap α :=
  entries.foldl (fun m e => insert e.1 e.2 m) []

end InputMap

namespace Circuit

variable {α : Type}

/-- Enters the values of a group of parameters. -/
def enter (values : List α) : List Param → InputMap α → Except InputFault (InputMap α)
  | [], m => .ok m
  | p :: rest, m =>
    match values[p.index]? with
    | some v => enter values rest (m.insert p.name v)
    | none => .error .position

/-- Pairs values given by position with the names of the parameters. -/
def inputMap (c : Circuit) (publicValues privateValues : List α) :
    Except InputFault (InputMap α) :=
  if publicValues.length ≠ c.publicParams.length then
    .error (.publicCount c.publicParams.length publicValues.length)
  else if privateValues.length ≠ c.privateParams.length then
    .error (.privateCount c.privateParams.length privateValues.length)
  else do
    let m ← enter privateValues c.privateParams []
    enter publicValues c.publicParams m

/-- The values of a group of parameters, in the order of their positions. -/
def groupValues (m : InputMap α) (params : List Param) : List α :=
  (params.mergeSort fun p q => p.index ≤ q.index).filterMap fun p => m.get? p.name

/-- The private and the public values of a map that has exactly the names of the parameters. -/
def orderedValues (c : Circuit) (m : InputMap α) : Except InputFault (List α × List α) :=
  let known := c.paramNames
  let extra := (m.map (·.1)).filter fun name => name ∉ known
  if !extra.isEmpty then .error (.unknown ((extra.mergeSort (· ≤ ·)).eraseReps))
  else
    let missing := known.filter fun name => (m.get? name).isNone
    if !missing.isEmpty then .error (.missing missing)
    else .ok (groupValues m c.privateParams, groupValues m c.publicParams)

end Circuit

end ArrowCircuit
