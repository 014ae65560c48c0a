import ArrowCircuit.Json.Basic
import ArrowCircuit.Text.Escaped

/-!
# Writing JSON

Two layouts: one line in ASCII, and an indented form that keeps characters outside ASCII and may
sort the fields by name.
-/

namespace ArrowCircuit.Json

/-- The text of a number that is not whole. -/
def realText (x : Binary64) : String :=
  match x with
  | .nan => "NaN"
  | .infinity negative => if negative then "-Infinity" else "Infinity"
  | x => x.toText

mutual

/-- The value on one line without blanks, in ASCII. -/
def compact : Json → String
  | .null => "null"
  | .bool b => if b then "true" else "false"
  | .int n => Numeral.decimal n
  | .real x => realText x
  | .text t => Text.escaped t
  | .array items => "[" ++ ",".intercalate (compactItems items) ++ "]"
  | .object fields => "\x7b" ++ ",".intercalate (compactFields fields) ++ "\x7d"

/-- The items of an array, each on one line. -/
def compactItems : List Json → List String
  | [] => []
  | v :: rest => compact v :: compactItems rest

/-- The fields of an object, each on one line. -/
def compactFields : List (String × Json) → List String
  | [] => []
  | (name, v) :: rest => (Text.escaped (Text.ofString name) ++ ":" ++ compact v) :: compactFields rest

end

/-- How a document is laid out: the text that a level of nesting is indented by, or none for a single
line, and whether names are sorted. -/
structure Layout where
  unit : Option String
  sorted : Bool
  deriving DecidableEq, Repr

/-- The layout for an indentation: none stands for two blanks, null for a single line, a number for as
many blanks, and a text for itself. Names are sorted. -/
def Layout.ofIndent : Option Json → Layout
  | none => ⟨some "  ", true⟩
  | some .null => ⟨none, true⟩
  | some (.text t) => ⟨some (Text.toStr t), true⟩
  | some (.int z) => ⟨some (String.ofList (List.replicate z.toNat ' ')), true⟩
  | some v => ⟨some (if v.isTruthy then " " else ""), true⟩

/-- The fields in the order in which they are written. -/
def Layout.order (layout : Layout) (fields : List (String × String)) : List (String × String) :=
  if layout.sorted then fields.mergeSort fun a b => a.1 ≤ b.1 else fields

/-- The items between brackets at a depth of nesting; nothing between them when there are none. -/
def Layout.enclose (layout : Layout) (depth : Nat) (opening closing : String)
    (items : List String) : String :=
  match items, layout.unit with
  | [], _ => opening ++ closing
  | items, none => opening ++ ", ".intercalate items ++ closing
  | items, some unit =>
    let newline (depth : Nat) := "\n" ++ String.join (List.replicate depth unit)
    opening ++ newline (depth + 1) ++ ("," ++ newline (depth + 1)).intercalate items ++ newline depth ++
      closing

mutual

/-- The value in an indented layout, at a depth of nesting. -/
def indented (layout : Layout) (depth : Nat) : Json → String
  | .null => "null"
  | .bool b => if b then "true" else "false"
  | .int n => Numeral.decimal n
  | .real x => realText x
  | .text t => Text.escapedUnicode t
  | .array items => layout.enclose depth "[" "]" (indentedItems layout (depth + 1) items)
  | .object fields =>
    let written := layout.order (indentedFields layout (depth + 1) fields)
    layout.enclose depth "\x7b" "\x7d"
      (written.map fun f => Text.escapedUnicode (Text.ofString f.1) ++ ": " ++ f.2)

/-- The items of an array in an indented layout. -/
def indentedItems (layout : Layout) (depth : Nat) : List Json → List String
  | [] => []
  | v :: rest => indented layout depth v :: indentedItems layout depth rest

/-- The values of an object's fields in an indented layout, with their names. -/
def indentedFields (layout : Layout) (depth : Nat) : List (String × Json) → List (String × String)
  | [] => []
  | (name, v) :: rest => (name, indented layout depth v) :: indentedFields layout depth rest

end

end ArrowCircuit.Json
