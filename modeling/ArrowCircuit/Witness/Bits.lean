import ArrowCircuit.Number.Numeral

/-!
# Bits

Numbers as lists of bits, the lowest bit first.
-/

namespace ArrowCircuit.Bits

/-- Why a number has no list of bits. -/
inductive Fault where
  | negative (value count : Int)
  | tooLarge (value count : Int)
  | negativeCount
  deriving DecidableEq, Repr

/-- The wording of a fault. -/
def Fault.message : Fault → String
  | .negative value count =>
    "cannot decompose negative value " ++ Numeral.decimal value ++ " into " ++ Numeral.decimal count ++
      " bits"
  | .tooLarge value count =>
    "value " ++ Numeral.decimal value ++ " does not fit in " ++ Numeral.decimal count ++ " bits"
  | .negativeCount => "negative shift count"

/-- The lowest `count` bits of a number. -/
def lowBits : (count value : Nat) → List Int
  | 0, _ => []
  | count + 1, value => (value % 2 : Nat) :: lowBits count (value / 2)

/-- The `count` bits of a number that fits into them. -/
def decompose (value count : Int) : Except Fault (List Int) :=
  if value < 0 then .error (.negative value count)
  else if count < 0 then .error .negativeCount
  else if value.toNat < Nat.pow 2 count.toNat then .ok (lowBits count.toNat value.toNat)
  else .error (.tooLarge value count)

/-- The number of a list of bits. -/
def recompose : List Int → Int
  | [] => 0
  | b :: rest => b + 2 * recompose rest

end ArrowCircuit.Bits
