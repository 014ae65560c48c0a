import ArrowCircuit.Number.Binary64

/-!
# JSON values

Objects keep their fields in the order in which the names first appeared; a name that comes again
replaces the value and keeps its place. Whole numbers are integers of any size, numbers with a
fraction or an exponent are floating-point.
-/

namespace ArrowCircuit

/-- A JSON value. -/
inductive Json where
  | null
  | bool (value : Bool)
  | int (value : Int)
  | real (value : Binary64)
  | text (value : Text)
  | array (items : List Json)
  | object (fields : List (String × Json))
  deriving Inhabited, Repr

namespace Json

/-- A string value. -/
def str (s : String) : Json := .text (Text.ofString s)

/-- A count or an index. -/
def nat (n : Nat) : Json := .int n

/-- Puts a value under a name: at its old place, or at the end when the name is new. -/
def insertField (name : String) (value : Json) : List (String × Json) → List (String × Json)
  | [] => [(name, value)]
  | f :: rest => if f.1 = name then (name, value) :: rest else f :: insertField name value rest

/-- The value under a name. -/
def field? (name : String) : Json → Option Json
  | .object fields => (fields.find? (·.1 = name)).map (·.2)
  | _ => none

/-- The fields of an object. -/
def fields? : Json → Option (List (String × Json))
  | .object fields => some fields
  | _ => none

/-- The items of an array. -/
def items? : Json → Option (List Json)
  | .array items => some items
  | _ => none

/-- A string value without surrogates. -/
def string? : Json → Option String
  | .text t => t.toString?
  | _ => none

/-- The value under a name; null where there is none. -/
def part (v : Json) (name : String) : Json := (v.field? name).getD .null

/-- The items of an array; none where there is no array. -/
def items (v : Json) : List Json := v.items?.getD []

/-- The fields of an object; none where there is no object. -/
def fields (v : Json) : List (String × Json) := v.fields?.getD []

/-- A string value; empty where there is none. -/
def string (v : Json) : String := v.string?.getD ""

/-- An integer, given as a number or as a numeral; zero where there is none. -/
def integer : Json → Int
  | .int z => z
  | .text t =>
    match Numeral.readMarked t with
    | .ok z => z
    | .error _ => 0
  | _ => 0

/-- A count or an index; zero where there is none. -/
def natural : Json → Nat
  | .int z => z.toNat
  | _ => 0

mutual

/-- A bound on the levels of nesting. -/
def depth : Json → Nat
  | .array items => depthOfItems items + 1
  | .object fields => depthOfFields fields + 1
  | _ => 1

/-- A bound on the levels of nesting in a list. -/
def depthOfItems : List Json → Nat
  | [] => 0
  | v :: rest => max (depth v) (depthOfItems rest)

/-- A bound on the levels of nesting in fields. -/
def depthOfFields : List (String × Json) → Nat
  | [] => 0
  | (_, v) :: rest => max (depth v) (depthOfFields rest)

end

/-- Whether a value counts as true in a condition: not null, false, zero or empty. -/
def isTruthy : Json → Bool
  | .null => false
  | .bool b => b
  | .int n => n ≠ 0
  | .real x => !x.isZero
  | .text t => !t.isEmpty
  | .array items => !items.isEmpty
  | .object fields => !fields.isEmpty

end Json

end ArrowCircuit
