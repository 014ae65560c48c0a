/-!
# Paths

A path is a list of names, from the root or from the working directory. Empty names and single dots
are left out when a path is read.
-/

namespace ArrowCircuit

/-- A path of the file tree. -/
structure Path where
  isAbsolute : Bool
  parts : List String
  deriving DecidableEq, Repr

namespace Path

/-- What stands between the slashes of a text. -/
def pieces : List Char → List (List Char)
  | [] => [[]]
  | c :: rest =>
    match c, pieces rest with
    | '/', more => [] :: more
    | c, [] => [[c]]
    | c, piece :: more => (c :: piece) :: more

/-- The path that a text names. -/
def ofString (s : String) : Path :=
  ⟨s.toList.head? = some '/',
    ((pieces s.toList).map String.ofList).filter fun part => part ≠ "" ∧ part ≠ "."⟩

/-- The text of a path. -/
def text (p : Path) : String :=
  let body := "/".intercalate p.parts
  if p.isAbsolute then "/" ++ body else if p.parts.isEmpty then "." else body

/-- The path below another; an absolute path stands for itself. -/
def join (p : Path) (s : String) : Path :=
  let q := ofString s
  if q.isAbsolute then q else { p with parts := p.parts ++ q.parts }

/-- The path of the directory that a path lies in. -/
def parent (p : Path) : Path := { p with parts := p.parts.dropLast }

/-- The last name of a path. -/
def name (p : Path) : String := p.parts.getLastD ""

/-- The names of a path with steps to the parent directory carried out. -/
def resolve (p : Path) : List String :=
  let names := p.parts.foldl (fun acc part => if part = ".." then acc.drop 1 else part :: acc) []
  if p.isAbsolute then "/" :: names.reverse else names.reverse

end Path

end ArrowCircuit
