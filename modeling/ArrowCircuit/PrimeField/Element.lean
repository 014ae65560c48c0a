import ArrowCircuit.Number.Numeral

/-!
# Residues

An element of a residue ring: a number with its modulus. The modulus need not be prime here, nor
positive; the value has the sign of the modulus and is smaller in magnitude, and an element carries the
proof of that.
-/

namespace ArrowCircuit

/-- A number modulo another. -/
structure Element where
  value : Int
  modulus : Int
  isReduced : value.fmod modulus = value
  deriving DecidableEq, Repr

instance : Inhabited Element := ⟨0, 0, rfl⟩

namespace Element

/-- Why an operation on residues has no result. -/
inductive Fault where
  | zeroModulus
  | inverseOfZero
  | differentFields
  deriving DecidableEq, Repr

/-- The wording of a fault. -/
def Fault.message : Fault → String
  | .zeroModulus => "integer modulo by zero"
  | .inverseOfZero => "inverse of zero"
  | .differentFields => "field elements from different fields"

/-- The residue of a number. -/
def ofInt (value modulus : Int) : Except Fault Element :=
  if modulus = 0 then .error .zeroModulus
  else .ok ⟨value.fmod modulus, modulus, Int.fmod_fmod _ _⟩

/-- The residue of a number modulo the modulus of an element. -/
def reduce (e : Element) (value : Int) : Element :=
  ⟨value.fmod e.modulus, e.modulus, Int.fmod_fmod _ _⟩

/-- The sum with an integer. -/
def add (e : Element) (z : Int) : Element := e.reduce (e.value + z)

/-- The difference with an integer. -/
def sub (e : Element) (z : Int) : Element := e.reduce (e.value - z)

/-- An integer less the element. -/
def subFrom (e : Element) (z : Int) : Element := e.reduce (z - e.value)

/-- The product with an integer. -/
def mul (e : Element) (z : Int) : Element := e.reduce (e.value * z)

/-- The opposite element. -/
def neg (e : Element) : Element := e.reduce (-e.value)

/-- Euclid's algorithm with the coefficient of the smaller number: `lm · a ≡ low` and `hm · a ≡ high`
modulo the modulus throughout. The answer is the coefficient when `low` has come down to one or
less; `fuel` bounds the steps. -/
def euclid : (fuel : Nat) → (lm hm low high : Int) → Int
  | 0, lm, _, _, _ => lm
  | fuel + 1, lm, hm, low, high =>
    if low > 1 then
      let r := high.fdiv low
      euclid fuel (hm - lm * r) lm (high - low * r) low
    else lm

/-- The inverse of an element that is not zero. -/
def inv (e : Element) : Except Fault Element :=
  if e.value = 0 then .error .inverseOfZero
  else
    let low := e.value.fmod e.modulus
    .ok (e.reduce (euclid low.toNat 1 0 low e.modulus))

/-- The quotient by an integer. -/
def div (e : Element) (z : Int) : Except Fault Element := do
  return e.mul (← (e.reduce z).inv).value

/-- Sixty-four hexadecimal digits after `0x`, the sign counted among them. -/
def toHex (e : Element) : String :=
  if e.value < 0 then "0x-" ++ Numeral.hexPadded 63 e.value.natAbs
  else "0x" ++ Numeral.hexPadded 64 e.value.natAbs

/-- The element as it is shown in messages. -/
def describe (e : Element) : Except Numeral.Fault String := do
  return "FieldElement(" ++ (← Numeral.decimal? e.value) ++ " mod " ++
    (← Numeral.decimal? e.modulus) ++ ")"

/-- The residue by which integers are told apart in hash tables: modulo the Mersenne prime
`2 ^ 61 - 1`, with the sign of the integer; `-1` shares its place with `-2`. -/
def intHash (z : Int) : Int :=
  let h := Int.tmod z (Nat.pow 2 61 - 1 : Nat)
  if h = -1 then -2 else h

/-- Whether two elements have the same place in a hash table. -/
def sameHash (a b : Element) : Bool :=
  intHash a.value == intHash b.value && intHash a.modulus == intHash b.modulus

end Element

end ArrowCircuit
