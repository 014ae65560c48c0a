import ArrowCircuit.Value.Basic

/-!
# Arithmetic with residues

Residues are added, subtracted, multiplied, divided and compared with each other and with plain
values. A plain value beside a residue is taken for an integer modulo the same number; two residues
must have the same modulus. Two plain values have to be integers.
-/

namespace ArrowCircuit.Value

/-- An operation on two values. -/
inductive Operation where
  | add
  | sub
  | mul
  | div
  | equal
  | sameHash
  deriving DecidableEq, Repr

/-- Why an operation has no result. -/
inductive OperationFault where
  | element (fault : Element.Fault)
  | value (fault : IntFault)
  /-- The operation does not take values of these kinds. -/
  | unsupported (op : Operation) (left right : String)
  /-- An integer is divided by zero. -/
  | zeroDivisor
  /-- A value of a kind that has no hash. -/
  | unhashable (typeName : String)
  deriving DecidableEq, Repr

/-- The sign of an operation. -/
def Operation.symbol : Operation → String
  | .add => "+"
  | .sub => "-"
  | .mul => "*"
  | .div => "/"
  | .equal => "=="
  | .sameHash => "#"

/-- The wording of a fault. -/
def OperationFault.message : OperationFault → String
  | .element f => f.message
  | .value f => f.message
  | .unsupported op left right =>
    "unsupported operand type(s) for " ++ op.symbol ++ ": '" ++ left ++ "' and '" ++ right ++ "'"
  | .zeroDivisor => "division by zero"
  | .unhashable name => "unhashable type: '" ++ name ++ "'"

/-- The integer of the operand beside a residue. -/
def operand (e : Element) : Value → Except OperationFault Int
  | .element o =>
    if e.modulus = o.modulus then .ok o.value else .error (.element .differentFields)
  | v => v.toInt.mapError .value

/-- Refuses the kinds of values that have no hash. -/
def requireHash : Value → Except OperationFault Unit
  | .list items => .error (.unhashable (Value.list items).typeName)
  | .map fields => .error (.unhashable (Value.map fields).typeName)
  | _ => .ok ()

/-- A residue before another value. -/
def applyLeft (op : Operation) (e : Element) (v : Value) : Except OperationFault Value :=
  match op with
  | .add => do return .element (e.add (← operand e v))
  | .sub => do return .element (e.sub (← operand e v))
  | .mul => do return .element (e.mul (← operand e v))
  | .div => do return .element (← (e.div (← operand e v)).mapError .element)
  | .equal =>
    match v with
    | .element o => .ok (.bool (e == o))
    | v => do return .bool (e == e.reduce (← v.toInt.mapError .value))
  | .sameHash =>
    match v with
    | .element o => .ok (.bool (e.sameHash o))
    | v => do
      requireHash v
      return .bool false

/-- A plain value before a residue. -/
def applyRight (op : Operation) (v : Value) (e : Element) : Except OperationFault Value :=
  match op with
  | .add => do return .element (e.add (← operand e v))
  | .sub => do return .element (e.subFrom (← operand e v))
  | .mul => do return .element (e.mul (← operand e v))
  | .div => .error (.unsupported .div v.typeName (Value.element e).typeName)
  | .equal => do return .bool (e == e.reduce (← v.toInt.mapError .value))
  | .sameHash => do
    requireHash v
    return .bool false

/-- The integer of a value that is a whole number by its kind. -/
def whole? : Value → Option Int
  | .int z => some z
  | .bool b => some (if b then 1 else 0)
  | _ => none

/-- The quotient of two integers as a floating-point number. -/
def quotient (a b : Int) : Except OperationFault Value :=
  if b = 0 then .error .zeroDivisor
  else .ok (.real (Binary64.ofFraction (decide (a < 0) != decide (b < 0)) a.natAbs b.natAbs))

/-- Two plain values, which have to be integers. -/
def applyPlain (op : Operation) (left right : Value) : Except OperationFault Value :=
  match left.whole?, right.whole? with
  | some a, some b =>
    match op with
    | .add => .ok (.int (a + b))
    | .sub => .ok (.int (a - b))
    | .mul => .ok (.int (a * b))
    | .div => quotient a b
    | .equal => .ok (.bool (a == b))
    | .sameHash => .ok (.bool (Element.intHash a == Element.intHash b))
  | _, _ => .error (.unsupported op left.typeName right.typeName)

/-- The result of an operation on two values. -/
def apply (op : Operation) : Value → Value → Except OperationFault Value
  | .element e, v => applyLeft op e v
  | v, .element e => applyRight op v e
  | a, b => applyPlain op a b

end ArrowCircuit.Value
