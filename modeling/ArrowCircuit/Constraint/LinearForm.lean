import ArrowCircuit.PrimeField.Basic

/-!
# Linear forms and assignments

A linear form is a list of terms `coefficient · w(index)`; an index may occur more than once. An
assignment gives values to indices. Index zero stands for the constant one.
-/

namespace ArrowCircuit

/-- A coefficient with the index it applies to. -/
structure LinearTerm where
  coefficient : Int
  index : Nat
  deriving DecidableEq, Repr, Inhabited

/-- A sum of terms. -/
abbrev LinearForm := List LinearTerm

/-- The index of the constant one. -/
def oneIndex : Nat := 0

/-- Values of indices; the latest one given to an index counts. -/
structure Assignment where
  entries : List (Nat × Int) := []
  deriving DecidableEq, Repr, Inhabited

namespace Assignment

/-- The value of an index. -/
def get? (w : Assignment) (i : Nat) : Option Int := w.entries.lookup i

/-- Gives a value to an index. -/
def set (w : Assignment) (i : Nat) (v : Int) : Assignment := ⟨(i, v) :: w.entries⟩

/-- Gives values to a list of indices; values or indices left over are ignored. -/
def setAll (w : Assignment) : List Nat → List Int → Assignment
  | i :: is, v :: vs => (w.set i v).setAll is vs
  | _, _ => w

@[simp]
theorem get?_set (w : Assignment) (i j : Nat) (v : Int) :
    (w.set i v).get? j = if j = i then some v else w.get? j := by
  by_cases h : j = i
  · simp [get?, set, h]
  · simp [get?, set, List.lookup_cons, beq_eq_false_iff_ne.mpr h, h]

/-- Values of the indices from zero on. -/
def ofList (values : List Int) : Assignment := ⟨values.mapIdx fun i v => (i, v)⟩

end Assignment

namespace LinearForm

/-- Adds a coefficient to that of an index: at its place, or at the end when the index is new. -/
def addTerm (f : PrimeField) (coefficient : Int) (index : Nat) : LinearForm → LinearForm
  | [] => [⟨f.reduce coefficient, index⟩]
  | t :: rest =>
    if t.index = index then ⟨f.reduce (t.coefficient + coefficient), index⟩ :: rest
    else t :: addTerm f coefficient index rest

/-- The canonical form: one term for each index, in the order of first occurrence, with reduced
coefficients and without zeros. -/
def merge (f : PrimeField) (terms : LinearForm) : LinearForm :=
  (terms.foldl (fun acc t => addTerm f t.coefficient t.index acc) []).filter (·.coefficient ≠ 0)

/-- The form with opposite coefficients. -/
def negate (f : PrimeField) (terms : LinearForm) : LinearForm :=
  terms.map fun t => ⟨f.reduce (-t.coefficient), t.index⟩

/-- The constant one. -/
def one : LinearForm := [⟨1, oneIndex⟩]

/-- The value of a single index. -/
def single (i : Nat) : LinearForm := [⟨1, i⟩]

/-- The sum of the terms under an assignment; the first index without a value is reported. -/
def sum (w : Assignment) : LinearForm → Except Nat Int
  | [] => .ok 0
  | t :: rest =>
    match w.get? t.index with
    | none => .error t.index
    | some v => do return t.coefficient * v + (← sum w rest)

/-- The value of the form modulo `p` under an assignment. -/
def eval (p : Nat) (w : Assignment) (terms : LinearForm) : Except Nat Int := do
  return (← sum w terms) % (p : Int)

/-- The coefficient with the sign of the nearer multiple of the scalar modulus. -/
def signedCoefficient (c : Int) : Int :=
  if c > (scalarModulus / 2 : Nat) then c - scalarModulus else c

/-- A term without its sign: index zero is a constant, and a coefficient one is left out. -/
def termText (c : Int) (index : Nat) : String :=
  if index = oneIndex then Numeral.decimalNat c.natAbs
  else if c.natAbs = 1 then "w" ++ Numeral.decimalNat index
  else Numeral.decimalNat c.natAbs ++ "*w" ++ Numeral.decimalNat index

/-- The form as a sum, such as `w3 - 2*w4 + 1`. -/
def render : LinearForm → String
  | [] => "0"
  | t :: rest =>
    let c := signedCoefficient t.coefficient
    let first := (if c < 0 then "-" else "") ++ termText c t.index
    rest.foldl (fun text t =>
      let c := signedCoefficient t.coefficient
      text ++ (if c < 0 then " - " else " + ") ++ termText c t.index) first

end LinearForm

end ArrowCircuit
