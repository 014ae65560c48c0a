import ArrowCircuit.Curve.BaseField
import ArrowCircuit.Curve.Group

/-!
# The byte format of points

The arithmetic of a curve, as a library of curves provides it, and the byte format of its points: a
point is its affine coordinates one after the other, a coordinate is one or more words of 32 bytes,
the highest byte first, and the point at infinity is all zeros.
-/

namespace ArrowCircuit

namespace Fq

/-- The number of bytes of a word. -/
def wordSize : Nat := 32

/-- The word of an element. -/
def word (a : Fq) : Bytes := Bytes.bigEndian wordSize a.val

/-- The element in the `i`-th place. -/
def wordAt (bs : Bytes) (i : Nat) : Except PointFault Fq :=
  match ofNat? (Bytes.toNat (bs.slice (i * wordSize) wordSize)) with
  | some a => .ok a
  | none => .error .unreduced

end Fq

/-- Coordinates that are written as a number of words. -/
class WordFormat (F : Type) [Coordinate F] where
  width : Nat
  words : F → List Fq
  ofWords : List Fq → F
  length_words : ∀ a, (words a).length = width
  ofWords_words : ∀ a, ofWords (words a) = a
  ofWords_zero : ofWords (List.replicate width Coordinate.zero) = Coordinate.zero

instance : WordFormat Fq where
  width := 1
  words a := [a]
  ofWords ws := ws.headD Coordinate.zero
  length_words _ := rfl
  ofWords_words _ := rfl
  ofWords_zero := rfl

/-- The real part stands before the imaginary part. -/
instance : WordFormat Fq2 where
  width := 2
  words a := [a.re, a.im]
  ofWords
    | [re, im] => ⟨re, im⟩
    | _ => Coordinate.zero
  length_words _ := rfl
  ofWords_words _ := rfl
  ofWords_zero := rfl

/-- The arithmetic of a curve with coordinates in `F`. Points have a form of their own, and one point
may have several. -/
structure CurveArithmetic (F : Type) where
  Point : Type
  zero : Point
  add : Point → Point → Point
  neg : Point → Point
  scale : Nat → Point → Point
  isZero : Point → Bool
  generator : Point
  /-- The affine coordinates of a point other than zero. -/
  toAffine : Point → F × F
  /-- The point of two coordinates, which need not lie on the curve. -/
  ofAffine : F → F → Point
  isOnCurve : Point → Bool

namespace CurveArithmetic

/-- The number of bytes of a point. -/
def pointSize (F : Type) [Coordinate F] [WordFormat F] : Nat := 2 * WordFormat.width F * Fq.wordSize

variable {F : Type} [Coordinate F] [WordFormat F] (C : CurveArithmetic F)

/-- The bytes of a point. -/
def encode (p : C.Point) : Bytes :=
  if C.isZero p then Bytes.zeros (pointSize F)
  else
    let (x, y) := C.toAffine p
    (WordFormat.words x ++ WordFormat.words y).flatMap Fq.word

/-- The point in a byte string. It is checked to lie on the curve, and not to lie in the group of the
generator. -/
def decode (name : String) (bs : Bytes) : Except PointFault C.Point := do
  if bs.length ≠ pointSize F then throw (.size name (pointSize F) bs.length)
  let ws ← (List.range (2 * WordFormat.width F)).mapM (Fq.wordAt bs)
  if ws.all (·.val = 0) then return C.zero
  let p := C.ofAffine (WordFormat.ofWords (ws.take (WordFormat.width F)))
    (WordFormat.ofWords (ws.drop (WordFormat.width F)))
  if C.isOnCurve p then return p else throw (.notOnCurve name)

/-- The group of points under a name that messages use. -/
def pointGroup (name : String) : PointGroup where
  Point := C.Point
  zero := C.zero
  add := C.add
  neg := C.neg
  scale := C.scale
  isZero := C.isZero
  generator := C.generator
  size := pointSize F
  encode := C.encode
  decode := C.decode name

end CurveArithmetic

end ArrowCircuit
