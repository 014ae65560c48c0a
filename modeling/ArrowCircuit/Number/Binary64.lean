import ArrowCircuit.Number.Numeral

/-!
# Binary floating-point numbers

A number with a fraction or an exponent stands for the nearest number `± mantissa · 2 ^ exponent` with
a mantissa of at most 53 bits. It is written with the fewest decimal digits that read back as the same
number. All of it is exact arithmetic on natural numbers.
-/

namespace ArrowCircuit

/-- A floating-point number. -/
inductive Binary64 where
  /-- The number `± mantissa · 2 ^ exponent`. -/
  | finite (negative : Bool) (mantissa : Nat) (exponent : Int)
  | infinity (negative : Bool)
  | nan
  deriving DecidableEq, Repr

namespace Binary64

/-- `⌊n / d⌉`, a half going to the even neighbour. -/
def roundDiv (n d : Nat) : Nat :=
  let q := n / d
  let r := n % d
  if 2 * r < d then q else if 2 * r > d then q + 1 else if q % 2 = 0 then q else q + 1

/-- A fraction `n / d` scaled by `2 ^ (-e)`, as numerator and denominator. -/
def scaleTwo (n d : Nat) (e : Int) : Nat × Nat :=
  if 0 ≤ e then (n, d * Nat.pow 2 e.toNat) else (n * Nat.pow 2 (-e).toNat, d)

/-- The floating-point number nearest to `n / d`. -/
def ofFraction (negative : Bool) (n d : Nat) : Binary64 :=
  if n = 0 then .finite negative 0 0
  else
    let guess : Int := (Nat.log2 n : Int) - Nat.log2 d - 52
    let (gn, gd) := scaleTwo n d guess
    let e := if gn < gd * Nat.pow 2 52 then guess - 1 else guess
    let e := if e < -1074 then -1074 else e
    let (sn, sd) := scaleTwo n d e
    let m := roundDiv sn sd
    let (m, e) := if m = Nat.pow 2 53 then (Nat.pow 2 52, e + 1) else (m, e)
    if e > 971 then .infinity negative else .finite negative m e

/-- The floating-point number nearest to `± digits · 10 ^ exponent`. -/
def ofDecimal (negative : Bool) (digits : Nat) (exponent : Int) : Binary64 :=
  let size : Int := (Nat.toDigits 10 digits).length
  if digits = 0 then .finite negative 0 0
  else if exponent + size > 400 then .infinity negative
  else if exponent + size < -400 then .finite negative 0 0
  else if 0 ≤ exponent then ofFraction negative (digits * Nat.pow 10 exponent.toNat) 1
  else ofFraction negative digits (Nat.pow 10 (-exponent).toNat)

/-- The integer part, cut toward zero, of a finite number. -/
def truncate? : Binary64 → Option Int
  | .finite negative m e =>
    some (Numeral.signed negative (if 0 ≤ e then m * Nat.pow 2 e.toNat else m / Nat.pow 2 (-e).toNat))
  | _ => none

/-- Whether the number is zero, of either sign. -/
def isZero : Binary64 → Bool
  | .finite _ m _ => m == 0
  | _ => false

/-- The product with an integer, rounded. -/
def scale (x : Binary64) (k : Int) : Binary64 :=
  match x with
  | .finite negative m e =>
    let n := m * k.natAbs
    ofFraction (negative != decide (k < 0)) (n * Nat.pow 2 e.toNat) (Nat.pow 2 (-e).toNat)
  | .infinity negative => if k = 0 then .nan else .infinity (negative != decide (k < 0))
  | .nan => .nan

/-- A decimal grid point `digits · 10 ^ place`. -/
structure Decimal where
  digits : Nat
  place : Int
  deriving DecidableEq, Repr

/-- Compares `a · 2 ^ e` with `d · 10 ^ k`; the exponents are cleared first. -/
def compareScaled (a : Nat) (e : Int) (d : Nat) (k : Int) : Ordering :=
  let left := a * Nat.pow 2 e.toNat * Nat.pow 10 (-k).toNat
  let right := d * Nat.pow 10 k.toNat * Nat.pow 2 (-e).toNat
  compare left right

/-- The grid point of step `10 ^ place` just below `m · 2 ^ e`. -/
def gridBelow (m : Nat) (e place : Int) : Nat :=
  (m * Nat.pow 2 e.toNat * Nat.pow 10 (-place).toNat) / (Nat.pow 2 (-e).toNat * Nat.pow 10 place.toNat)

/-- Whether `d · 10 ^ place` reads back as `m · 2 ^ e`: it lies between the midpoints to the two
neighbours, the midpoints included when `m` is even. -/
def readsBack (m : Nat) (e : Int) (d : Nat) (place : Int) : Bool :=
  let even := m % 2 == 0
  let lowGap := if m = Nat.pow 2 52 ∧ e > -1074 then 1 else 2
  let low := compareScaled (4 * m - lowGap) (e - 2) d place
  let high := compareScaled (4 * m + 2) (e - 2) d place
  (low == .lt || (even && low == .eq)) && (high == .gt || (even && high == .eq))

/-- Of the two grid neighbours of `m · 2 ^ e` those that read back, the nearer one first. -/
def candidate (m : Nat) (e : Int) (place : Int) : Option Decimal :=
  let d := gridBelow m e place
  let below := readsBack m e d place
  let above := readsBack m e (d + 1) place
  if below && above then
    if compareScaled (2 * m) e (2 * d + 1) place == .gt then some ⟨d + 1, place⟩ else some ⟨d, place⟩
  else if below then some ⟨d, place⟩
  else if above then some ⟨d + 1, place⟩
  else none

/-- The number of digits before the decimal point of `m · 2 ^ e`; zero or less below one tenth. -/
def magnitude (m : Nat) (e : Int) : Int :=
  if 0 ≤ e then (Nat.toDigits 10 (m * Nat.pow 2 e.toNat)).length
  else
    let whole := m / Nat.pow 2 (-e).toNat
    if whole ≠ 0 then (Nat.toDigits 10 whole).length
    else
      -- `m · 5 ^ k` has the digits of `m / 2 ^ k` behind the point
      let k := (-e).toNat
      (Nat.toDigits 10 (m * Nat.pow 5 k)).length - (k : Int)

/-- The first of the grids with 1, 2, … digits that has a point reading back as `m · 2 ^ e`. -/
def shortest (m : Nat) (e : Int) : Decimal :=
  let size := magnitude m e
  ((List.range 17).findSome? fun n => candidate m e (size - (n + 1 : Nat))).getD ⟨gridBelow m e (size - 17), size - 17⟩

/-- Removes the zeros at the end of the digits. -/
def dropZeros : (fuel : Nat) → Decimal → Decimal
  | 0, d => d
  | fuel + 1, d => if d.digits ≠ 0 ∧ d.digits % 10 = 0 then dropZeros fuel ⟨d.digits / 10, d.place + 1⟩ else d

/-- Positional notation for numbers from `1e-4` to below `1e16`, an exponent of at least two digits
otherwise; a whole number keeps `.0`. -/
def layout (d : Decimal) : String :=
  let digits := Nat.toDigits 10 d.digits
  let point : Int := digits.length + d.place
  if -4 < point ∧ point ≤ 16 then
    if point ≤ 0 then "0." ++ String.ofList (List.replicate (-point).toNat '0' ++ digits)
    else if digits.length ≤ point.toNat then
      String.ofList (digits ++ List.replicate (point.toNat - digits.length) '0') ++ ".0"
    else
      String.ofList (digits.take point.toNat) ++ "." ++ String.ofList (digits.drop point.toNat)
  else
    let e := point - 1
    let mantissa := match digits with
      | [c] => String.ofList [c]
      | c :: rest => String.ofList (c :: '.' :: rest)
      | [] => ""
    let exponent := Numeral.decimalNat e.natAbs
    mantissa ++ (if e < 0 then "e-" else "e+") ++ (if e.natAbs < 10 then "0" else "") ++ exponent

/-- The text of a floating-point number. -/
def toText : Binary64 → String
  | .nan => "nan"
  | .infinity negative => if negative then "-inf" else "inf"
  | .finite negative m e =>
    (if negative then "-" else "") ++
      (if m = 0 then "0.0" else layout (dropZeros 17 (shortest m e)))

end Binary64

end ArrowCircuit
