import ArrowCircuit.PrimeField.Element
import ArrowCircuit.Json.Basic

/-!
# Supplied values

The values that callers supply as inputs of a circuit, as public inputs of a proof or as settings.
They may be of any kind; each use says which kinds it takes.
-/

namespace ArrowCircuit

/-- A supplied value. -/
inductive Value where
  | null
  | bool (value : Bool)
  | int (value : Int)
  | real (value : Binary64)
  | text (value : Text)
  | bytes (value : List UInt8)
  | list (items : List Value)
  | map (fields : List (String × Value))
  | element (value : Element)
  deriving Inhabited, Repr

namespace Value

/-- The name of a value's kind in messages. -/
def typeName : Value → String
  | .null => "NoneType"
  | .bool _ => "bool"
  | .int _ => "int"
  | .real _ => "float"
  | .text _ => "str"
  | .bytes _ => "bytes"
  | .list _ => "list"
  | .map _ => "dict"
  | .element _ => "FieldElement"

/-- A string value. -/
def str (s : String) : Value := .text (Text.ofString s)

/-- Why a value is not an integer. -/
inductive IntFault where
  | numeral (fault : Numeral.Fault)
  /-- A byte string that is no numeral. -/
  | invalidBytes (value : List UInt8)
  | notNumber (typeName : String)
  | notFinite (isNan : Bool)
  deriving DecidableEq, Repr

/-- A byte string as it is shown in messages. -/
def quotedBytes (bs : List UInt8) : String :=
  let points := bs.map UInt8.toNat
  let quote := Text.quoteFor points
  let shown := points.flatMap fun c =>
    if c < 0x80 then Text.quotedPoint quote c else ['\\', 'x'] ++ Text.hexDigits 2 c
  String.ofList ('b' :: Char.ofNat quote :: shown ++ [Char.ofNat quote])

/-- The wording of a fault. -/
def IntFault.message : IntFault → String
  | .numeral f => f.message
  | .invalidBytes bs =>
    "invalid literal for int() with base 10: " ++ String.ofList ((quotedBytes bs).toList.take 200)
  | .notNumber name =>
    "int() argument must be a string, a bytes-like object or a real number, not '" ++ name ++ "'"
  | .notFinite isNan =>
    if isNan then "cannot convert float NaN to integer" else "cannot convert float infinity to integer"

/-- The integer of a value: numbers cut toward zero, numerals read, residues by their value. -/
def toInt : Value → Except IntFault Int
  | .int z => .ok z
  | .bool b => .ok (if b then 1 else 0)
  | .real x =>
    match x.truncate? with
    | some z => .ok z
    | none => .error (.notFinite (x == .nan))
  | .text t =>
    match Numeral.read 10 t with
    | .ok z => .ok z
    | .error f => .error (.numeral f)
  | .bytes bs =>
    if bs.all (· < 0x80) then
      match Numeral.read 10 (bs.map UInt8.toNat) with
      | .ok z => .ok z
      | .error (.invalid ..) => .error (.invalidBytes bs)
      | .error f => .error (.numeral f)
    else .error (.invalidBytes bs)
  | .element e => .ok e.value
  | v => .error (.notNumber v.typeName)

mutual

/-- How a value is shown inside a list or a map. -/
def quoted : Value → Except Numeral.Fault String
  | .null => .ok "None"
  | .bool b => .ok (if b then "True" else "False")
  | .int z => Numeral.decimal? z
  | .real x => .ok x.toText
  | .text t => .ok (Text.quoted t)
  | .bytes bs => .ok (quotedBytes bs)
  | .list items => do return "[" ++ ", ".intercalate (← quotedItems items) ++ "]"
  | .map fields => do return "\x7b" ++ ", ".intercalate (← quotedFields fields) ++ "\x7d"
  | .element e => e.describe

/-- The items of a list as they are shown. -/
def quotedItems : List Value → Except Numeral.Fault (List String)
  | [] => .ok []
  | v :: rest => do
    let first ← quoted v
    let rest ← quotedItems rest
    return first :: rest

/-- The fields of a map as they are shown. -/
def quotedFields : List (String × Value) → Except Numeral.Fault (List String)
  | [] => .ok []
  | (name, v) :: rest => do
    let first ← quoted v
    let rest ← quotedFields rest
    return (Text.quoted (Text.ofString name) ++ ": " ++ first) :: rest

end

/-- The text of a value; a text stands for itself. -/
def display : Value → Except Numeral.Fault Text
  | .text t => .ok t
  | v => do return Text.ofString (← v.quoted)

mutual

/-- The value of a JSON value. -/
def ofJson : Json → Value
  | .null => .null
  | .bool b => .bool b
  | .int z => .int z
  | .real x => .real x
  | .text t => .text t
  | .array items => .list (ofJsonItems items)
  | .object fields => .map (ofJsonFields fields)

/-- The values of the items of an array. -/
def ofJsonItems : List Json → List Value
  | [] => []
  | v :: rest => ofJson v :: ofJsonItems rest

/-- The values of the fields of an object. -/
def ofJsonFields : List (String × Json) → List (String × Value)
  | [] => []
  | (name, v) :: rest => (name, ofJson v) :: ofJsonFields rest

end

/-- Whether a value counts as true in a condition. -/
def isTruthy : Value → Bool
  | .null => false
  | .bool b => b
  | .int z => z ≠ 0
  | .real x => !x.isZero
  | .text t => !t.isEmpty
  | .bytes bs => !bs.isEmpty
  | .list items => !items.isEmpty
  | .map fields => !fields.isEmpty
  | .element _ => true

end Value

end ArrowCircuit
