import ArrowCircuit.PrimeField.Basic

/-!
# Random elements

A source of randomness is a stream of integers with a position in it; a draw below a bound is the
next integer reduced modulo the bound. A source may repeat, and says after how many draws.
-/

namespace ArrowCircuit

/-- A stream of random integers, how many have been drawn, and after how many it repeats. -/
structure Entropy where
  stream : Nat → Int
  position : Nat := 0
  period : Nat

namespace Entropy

/-- The stream that goes round a list; ones if the list is empty. -/
def cycle (draws : List Int) : Entropy :=
  let draws := draws.toArray
  ⟨fun i => draws.getD (i % draws.size) 1, 0, max 1 draws.size⟩

/-- A number below `n`, and the source behind it. -/
def below (e : Entropy) (n : Nat) : Nat × Entropy :=
  (((e.stream e.position) % (n : Int)).toNat, { e with position := e.position + 1 })

end Entropy

namespace PrimeField

/-- A random number of the field. -/
def random (f : PrimeField) (e : Entropy) : Nat × Entropy := e.below f.modulus

/-- A random number of the field that is not zero. -/
def randomNonzero (f : PrimeField) (e : Entropy) : Nat × Entropy :=
  let (n, e) := e.below (f.modulus - 1)
  (n + 1, e)

end PrimeField

end ArrowCircuit
