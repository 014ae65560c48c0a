import ArrowCircuit.PrimeField.Primality
import ArrowCircuit.PrimeField.Element

/-!
# Coordinates

The base field of the curve BN254 and its quadratic extension by a square root `i` of minus one.
Elements carry the proof that they are reduced.
-/

namespace ArrowCircuit

/-- The order of the base field. -/
def baseModulus : Nat :=
  0x30644E72E131A029B85045B68181585D97816A916871CA8D3C208C16D87CFD47

/-- The arithmetic of coordinates. -/
class Coordinate (F : Type) extends Add F, Sub F, Mul F, Neg F where
  zero : F
  one : F
  inv : F → F

/-- An element of the base field. -/
structure Fq where
  val : Nat
  isLt : val < baseModulus
  deriving DecidableEq, Repr

namespace Fq

theorem modulus_pos : 0 < baseModulus := by decide

/-- The element of a number. -/
def ofNat (n : Nat) : Fq := ⟨n % baseModulus, Nat.mod_lt _ modulus_pos⟩

/-- The element of a number, if it is reduced. -/
def ofNat? (n : Nat) : Option Fq := if h : n < baseModulus then some ⟨n, h⟩ else none

/-- The inverse of an element that is not zero. -/
def inv (a : Fq) : Fq :=
  ofNat ((Element.euclid a.val 1 0 a.val baseModulus) % (baseModulus : Int)).toNat

instance : Coordinate Fq where
  add a b := ofNat (a.val + b.val)
  sub a b := ofNat (a.val + (baseModulus - b.val))
  mul a b := ofNat (a.val * b.val)
  neg a := ofNat (baseModulus - a.val)
  zero := ofNat 0
  one := ofNat 1
  inv := inv

/-- Twice an element. -/
def double (a : Fq) : Fq := a + a

end Fq

/-- An element `re + im · i` of the quadratic extension. -/
structure Fq2 where
  re : Fq
  im : Fq
  deriving DecidableEq, Repr

namespace Fq2

/-- The product with an element of the base field. -/
def scale (k : Fq) (a : Fq2) : Fq2 := ⟨k * a.re, k * a.im⟩

/-- The conjugate, which is the power to the order of the base field. -/
def conj (a : Fq2) : Fq2 := ⟨a.re, -a.im⟩

/-- The product, from three products in the base field. -/
def mul (a b : Fq2) : Fq2 :=
  let t := a.re * b.re
  let u := a.im * b.im
  ⟨t - u, (a.re + a.im) * (b.re + b.im) - t - u⟩

/-- The inverse, by way of the norm. -/
def inv (a : Fq2) : Fq2 :=
  scale (Fq.inv (a.re * a.re + a.im * a.im)) (conj a)

instance : Coordinate Fq2 where
  add a b := ⟨a.re + b.re, a.im + b.im⟩
  sub a b := ⟨a.re - b.re, a.im - b.im⟩
  mul := mul
  neg a := ⟨-a.re, -a.im⟩
  zero := ⟨Coordinate.zero, Coordinate.zero⟩
  one := ⟨Coordinate.one, Coordinate.zero⟩
  inv := inv

/-- The element of two numbers. -/
def ofNats (re im : Nat) : Fq2 := ⟨.ofNat re, .ofNat im⟩

end Fq2

/-- The binary digits of a number, the highest first; `fuel` bounds their number. -/
def binaryLoop : (fuel n : Nat) → List Bool → List Bool
  | 0, _, bits => bits
  | fuel + 1, n, bits => if n = 0 then bits else binaryLoop fuel (n / 2) ((n % 2 == 1) :: bits)

/-- The binary digits of a number, the highest first. -/
def binaryDigits (n : Nat) : List Bool := binaryLoop (n.log2 + 1) n []

/-- The power of an element by squaring and multiplying. -/
def Coordinate.pow {F : Type} [Coordinate F] (a : F) (n : Nat) : F :=
  (binaryDigits n).foldl (fun acc bit => if bit then acc * acc * a else acc * acc) Coordinate.one

end ArrowCircuit
