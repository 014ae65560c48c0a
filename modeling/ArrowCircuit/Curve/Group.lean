import ArrowCircuit.Bytes.Basic

/-!
# Groups of points

A group of points with its byte format, and what proof systems compute in it: multiples of the
generator, sums of multiples, and lists of points one after the other.
-/

namespace ArrowCircuit

/-- Why bytes are not a point. -/
inductive PointFault where
  | size (group : String) (expected actual : Nat)
  /-- A coordinate is not below the order of the base field. -/
  | unreduced
  | notOnCurve (group : String)
  deriving DecidableEq, Repr

namespace PointFault

/-- The wording of a fault. -/
def message : PointFault → String
  | .size group expected actual =>
    group ++ " point must be " ++ toString expected ++ " bytes, got " ++ toString actual
  | .unreduced => "coordinate is not reduced modulo the base field"
  | .notOnCurve group => group ++ " point is not on the curve"

/-- Whether the bytes have the right length and yet are no point. -/
def isInvalid : PointFault → Bool
  | .size .. => false
  | _ => true

end PointFault

/-- A group of points with its byte format. -/
structure PointGroup where
  Point : Type
  zero : Point
  add : Point → Point → Point
  neg : Point → Point
  scale : Nat → Point → Point
  isZero : Point → Bool
  generator : Point
  /-- The number of bytes of a point. -/
  size : Nat
  encode : Point → Bytes
  decode : Bytes → Except PointFault Point

namespace PointGroup

variable (g : PointGroup)

/-- The multiple of the generator by a residue modulo `order`. -/
def ofScalar (order : Nat) (k : Int) : g.Point :=
  let k := (k % (order : Int)).toNat
  if k = 0 then g.zero else g.scale k g.generator

/-- The sum of multiples of points by residues modulo `order`; the longer list is cut. -/
def sum (order : Nat) (points : List g.Point) (scalars : List Int) : g.Point :=
  (points.zip scalars).foldl (fun acc (p, k) =>
    let k := (k % (order : Int)).toNat
    if k = 0 || g.isZero p then acc else g.add acc (g.scale k p)) g.zero

/-- The points in a byte string from `start` on, `count` of them. -/
def decodeList (bs : Bytes) (start count : Nat) : Except PointFault (List g.Point) :=
  (List.range count).mapM fun i => g.decode (bs.slice (start + i * g.size) g.size)

/-- The bytes of points one after the other. -/
def encodeList (points : List g.Point) : Bytes := points.flatMap g.encode

end PointGroup

end ArrowCircuit
