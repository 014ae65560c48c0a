import ArrowCircuit.Circuit.Basic
import ArrowCircuit.Proofs.PrimeField.Residue

/-!
# Reference semantics of circuits

What a circuit means over a field, with no regard to how it is lowered: expressions are evaluated,
declarations and assignments bind names one after another, and each assertion puts a demand on the
values of its operands.  Branches, loops, arrays and texts have no meaning over a field.

`run` is executable, so that a circuit can be evaluated beside the witness of its constraint system.
-/

namespace ArrowCircuit.Reference

/-- Why a program has no outcome. -/
inductive Fault where
  | unbound (name : String)
  | divisionByZero
  | meaningless
  deriving DecidableEq, Repr

/-- Values of names; the latest binding of a name comes first. -/
abbrev Env (F : Type) := List (String × F)

section Field

variable {F : Type} [Field F] [DecidableEq F]

/-- The result of an operator between two values. -/
def apply : BinaryOp → F → F → Except Fault F
  | .add, x, y => .ok (x + y)
  | .sub, x, y => .ok (x - y)
  | .mul, x, y => .ok (x * y)
  | .div, x, y => if y = 0 then .error .divisionByZero else .ok (x / y)
  | _, _, _ => .error .meaningless

/-- The value of an expression. -/
def eval (env : Env F) : Expr → Except Fault F
  | .identifier name =>
    match env.lookup name with
    | some x => .ok x
    | none => .error (.unbound name)
  | .literal (.int z) => .ok z
  | .literal (.bool b) => .ok (if b then 1 else 0)
  | .binary op left right => do
    let x ← eval env left
    let y ← eval env right
    apply op x y
  | .unary .neg operand => do
    let x ← eval env operand
    return -x
  | _ => .error .meaningless

/-- What an assertion demands of the values of its operands. -/
inductive Demand (F : Type) where
  | equal (left right : F)
  /-- `greater ≥ less`, or `greater > less` if `strict`. -/
  | order (greater less : F) (strict : Bool)
  | truth (value : F)
  deriving DecidableEq, Repr

/-- The demand of an asserted condition. -/
def demand (env : Env F) : Expr → Except Fault (Demand F)
  | .binary op left right => do
    let x ← eval env left
    let y ← eval env right
    match op with
    | .eq => .ok (.equal x y)
    | .ge => .ok (.order x y false)
    | .gt => .ok (.order x y true)
    | .le => .ok (.order y x false)
    | .lt => .ok (.order y x true)
    | _ => .error .meaningless
  | .otherBinary .. => .error .meaningless
  | condition => do
    let x ← eval env condition
    return .truth x

/-- One statement: the names behind it, and what it demands. -/
def step (env : Env F) : Statement → Except Fault (Env F × List (Demand F))
  | .assert condition _ => do
    let d ← demand env condition
    return (env, [d])
  | .declare name _ initial => do
    let x ← eval env initial
    return ((name, x) :: env, [])
  | .assign target value _ => do
    let x ← eval env value
    return ((target, x) :: env, [])
  | _ => .error .meaningless

/-- Statements one after another: the names behind the last, and all that was demanded. -/
def run : List Statement → Env F → Except Fault (Env F × List (Demand F))
  | [], env => .ok (env, [])
  | statement :: rest, env => do
    let (env, ds) ← step env statement
    let (env, ds') ← run rest env
    return (env, ds ++ ds')

/-! ## Outcomes from values -/

variable {env env' : Env F}

/-- An operator is applied to the values of its operands. -/
theorem eval_binary {op : BinaryOp} {l r : Expr} {x y : F} (hl : eval env l = .ok x)
    (hr : eval env r = .ok y) : eval env (.binary op l r) = apply op x y := by
  simp only [eval, hl, hr, bind, Except.bind]

theorem eval_neg {e : Expr} {x : F} (h : eval env e = .ok x) :
    eval env (.unary .neg e) = .ok (-x) := by
  simp only [eval, h, bind, Except.bind, pure, Except.pure]

theorem ne_zero_of_apply_div {x y z : F} (h : apply .div x y = .ok z) : y ≠ 0 := by
  rintro rfl
  rw [apply, if_pos rfl] at h
  cases h

theorem step_assert {e : Expr} {m : Option Text} {d : Demand F} (h : demand env e = .ok d) :
    step env (.assert e m) = .ok (env, [d]) := by
  simp only [step, h, bind, Except.bind, pure, Except.pure]

theorem step_declare {n : String} {isMutable : Bool} {e : Expr} {x : F} (h : eval env e = .ok x) :
    step env (.declare n isMutable e) = .ok ((n, x) :: env, []) := by
  simp only [step, h, bind, Except.bind, pure, Except.pure]

theorem step_assign {n : String} {isMutable : Bool} {e : Expr} {x : F} (h : eval env e = .ok x) :
    step env (.assign n e isMutable) = .ok ((n, x) :: env, []) := by
  simp only [step, h, bind, Except.bind, pure, Except.pure]

theorem run_cons {statement : Statement} {rest : List Statement} {env'' : Env F}
    {ds ds' : List (Demand F)} (h : step env statement = .ok (env', ds))
    (hrest : run rest env' = .ok (env'', ds')) :
    run (statement :: rest) env = .ok (env'', ds ++ ds') := by
  simp only [run, h, hrest, bind, Except.bind, pure, Except.pure]

end Field

namespace Demand

/-- Whether a demand of equality or truth is met; a demand of order is not looked at. -/
def Met {F : Type} [One F] : Demand F → Prop
  | .equal x y => x = y
  | .truth x => x = 1
  | .order .. => True

variable {p : Nat}

/-- Whether a demand of order is met in the field: the difference of the sides, less one if the
order is strict, has a representative of `bits` bits. -/
def FitsField (bits : Nat) : Demand (ZMod p) → Prop
  | .order x y strict => (x - y - if strict then 1 else 0).val < 2 ^ bits
  | _ => True

/-- The difference of the representatives of two sides, less one if the order is strict. -/
def gap (x y : ZMod p) (strict : Bool) : Int := x.val - y.val - if strict then 1 else 0

/-- Whether a demand of order is met by representatives: their difference, less one if the order is
strict, is a number of `bits` bits. -/
def Fits (bits : Nat) : Demand (ZMod p) → Prop
  | .order x y strict => 0 ≤ gap x y strict ∧ gap x y strict < 2 ^ bits
  | _ => True

/-- Whether a demand of order does not hold of representatives but is met in the field: the
difference is negative, and by adding the modulus it becomes a number of `bits` bits. -/
def Wraps (bits : Nat) : Demand (ZMod p) → Prop
  | .order x y strict => gap x y strict < 0 ∧ gap x y strict + p < 2 ^ bits
  | _ => False

instance {F : Type} [One F] [DecidableEq F] : (d : Demand F) → Decidable d.Met
  | .equal x y => inferInstanceAs (Decidable (x = y))
  | .truth x => inferInstanceAs (Decidable (x = 1))
  | .order .. => .isTrue trivial

instance (bits : Nat) : (d : Demand (ZMod p)) → Decidable (d.FitsField bits)
  | .order x y strict => inferInstanceAs (Decidable ((x - y - if strict then 1 else 0).val < _))
  | .equal .. => .isTrue trivial
  | .truth _ => .isTrue trivial

instance (bits : Nat) : (d : Demand (ZMod p)) → Decidable (d.Fits bits)
  | .order x y strict => inferInstanceAs (Decidable (0 ≤ gap x y strict ∧ gap x y strict < _))
  | .equal .. => .isTrue trivial
  | .truth _ => .isTrue trivial

instance (bits : Nat) : (d : Demand (ZMod p)) → Decidable (d.Wraps bits)
  | .order x y strict => inferInstanceAs (Decidable (gap x y strict < 0 ∧ gap x y strict + p < _))
  | .equal .. => .isFalse id
  | .truth _ => .isFalse id

/-! ## Orders in the field -/

theorem intCast_gap [NeZero p] (x y : ZMod p) (strict : Bool) :
    (gap x y strict : ZMod p) = x - y - if strict then 1 else 0 := by
  rw [gap]
  push_cast
  rw [ZMod.natCast_zmod_val, ZMod.natCast_zmod_val]

/-- The field sees the difference itself, or the difference with the modulus added. -/
theorem val_difference_eq [NeZero p] (x y : ZMod p) (strict : Bool) :
    ((x - y - if strict then 1 else 0 : ZMod p).val : Int) =
      if 0 ≤ gap x y strict then gap x y strict else gap x y strict + p := by
  have hx := x.val_lt
  have hy := y.val_lt
  have hlower : -(p : Int) ≤ gap x y strict := by
    rw [gap]
    split <;> omega
  have hupper : gap x y strict < p := by
    rw [gap]
    split <;> omega
  rw [← intCast_gap]
  by_cases hg : 0 ≤ gap x y strict
  · rw [if_pos hg]
    exact Canonical.val_intCast ⟨hg, hupper⟩
  · rw [if_neg hg]
    have hcast : ((gap x y strict + p : Int) : ZMod p) = gap x y strict := by
      push_cast
      rw [ZMod.natCast_self, add_zero]
    rw [← hcast]
    exact Canonical.val_intCast ⟨by omega, by omega⟩

/-- An order is met in the field exactly when it holds of representatives or wraps around. -/
theorem fitsField_iff [NeZero p] {bits : Nat} {d : Demand (ZMod p)} :
    d.FitsField bits ↔ d.Fits bits ∨ d.Wraps bits := by
  cases d with
  | order x y strict =>
      have hval := val_difference_eq x y strict
      have hcast : (x - y - if strict then 1 else 0 : ZMod p).val < 2 ^ bits ↔
          ((x - y - if strict then 1 else 0 : ZMod p).val : Int) < 2 ^ bits := by
        norm_cast
      rw [FitsField, Fits, Wraps, hcast, hval]
      by_cases hg : 0 ≤ gap x y strict
      · rw [if_pos hg]
        simp [hg]
      · rw [if_neg hg]
        simp [hg, Int.not_le.mp hg]
  | equal _ _ => simp [FitsField, Fits]
  | truth _ => simp [FitsField, Fits]

end Demand

end ArrowCircuit.Reference

namespace ArrowCircuit

/-- The parameters of a circuit bound to values, private ones first. -/
def Circuit.paramEnv {F : Type} (c : Circuit) (values : List F) : Reference.Env F :=
  (c.paramNames.zip values).reverse

end ArrowCircuit
