import ArrowCircuit.Bytes.Basic
import ArrowCircuit.Json.Reader
import ArrowCircuit.Value.Arithmetic

/-!
# Tagged values

The JSON form of supplied values. The kinds that JSON lacks are objects with a tag: integers and
residues as hexadecimal numerals, floating-point numbers as text, byte strings in hexadecimal, and maps.
Plain JSON values stand for themselves.
-/

namespace ArrowCircuit.Value

/-- The bytes of a hexadecimal text. -/
def readHex : List Char → Bytes
  | a :: b :: rest =>
    UInt8.ofNat ((Json.hexValue? a).getD 0 * 16 + (Json.hexValue? b).getD 0) :: readHex rest
  | _ => []

/-- The floating-point number of a text. -/
def readReal (s : String) : Binary64 :=
  match s with
  | "inf" => .infinity false
  | "-inf" => .infinity true
  | s =>
    match Json.read s with
    | .ok (.real x) => x
    | .ok (.int z) => .ofDecimal (z < 0) z.natAbs 0
    | _ => .nan

mutual

/-- The tagged form of a value. -/
def tagged : Value → Json
  | .null => .null
  | .bool b => .bool b
  | .int z => .object [("int", .str (Numeral.hex z))]
  | .real x => .object [("float", .str x.toText)]
  | .text t => .text t
  | .bytes bs => .object [("bytes", .str (Bytes.hex bs))]
  | .list vs => .array (taggedItems vs)
  | .map fields => .object [("dict", .object (taggedFields fields))]
  | .element e => .object [("fe", .array [.str (Numeral.hex e.value), .str (Numeral.hex e.modulus)])]

/-- The tagged forms of a list. -/
def taggedItems : List Value → List Json
  | [] => []
  | v :: rest => tagged v :: taggedItems rest

/-- The tagged forms of fields. -/
def taggedFields : List (String × Value) → List (String × Json)
  | [] => []
  | (name, v) :: rest => (name, tagged v) :: taggedFields rest

end

mutual

/-- The value of a tagged form, to a depth of nesting. -/
def readTagged : (depth : Nat) → Json → Except OperationFault Value
  | _, .null => .ok .null
  | _, .bool b => .ok (.bool b)
  | _, .int z => .ok (.int z)
  | _, .real x => .ok (.real x)
  | _, .text t => .ok (.text t)
  | 0, _ => .ok .null
  | depth + 1, .array items => do return .list (← items.mapM (readTagged depth))
  | _, .object [("int", v)] => .ok (.int v.integer)
  | _, .object [("float", v)] => .ok (.real (readReal v.string))
  | _, .object [("bytes", v)] => .ok (.bytes (readHex v.string.toList))
  | depth + 1, .object [("fe", .array [v, p])] => do
    let p ← (← readTagged depth p).toInt.mapError .value
    let v ← (← readTagged depth v).toInt.mapError .value
    return .element (← (Element.ofInt v p).mapError .element)
  | depth + 1, .object [("dict", .object fields)] => readTaggedFields depth fields
  | depth + 1, .object fields => readTaggedFields depth fields

/-- The map of fields in tagged form. -/
def readTaggedFields : (depth : Nat) → List (String × Json) → Except OperationFault Value
  | 0, _ => .ok (.map [])
  | depth + 1, fields => do
    return .map (← fields.mapM fun f => do return (f.1, ← readTagged depth f.2))

end

/-- The value of a tagged form. -/
def ofTagged (v : Json) : Except OperationFault Value := readTagged (2 * v.depth) v

end ArrowCircuit.Value
