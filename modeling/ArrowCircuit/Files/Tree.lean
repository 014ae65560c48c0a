import ArrowCircuit.Bytes.Basic
import ArrowCircuit.Files.Path
import ArrowCircuit.Json.Basic
import ArrowCircuit.Text.Quoted

/-!
# File trees

The files and directories that tools work on, as a value. Reading and writing fail as they do on a
disk: below a missing directory, below a file, and on a directory itself. Files are listed in JSON by
their paths, as text where they are text and in hexadecimal otherwise.
-/

namespace ArrowCircuit

/-- What stands under a path. -/
inductive FileNode where
  | directory
  | file (content : Bytes)
  deriving DecidableEq, Repr

/-- A tree of files; entries are in the order in which they were made. -/
structure FileTree where
  entries : List (List String × FileNode) := []
  deriving DecidableEq, Repr

/-- Why a file is not read or written. -/
inductive FileFault where
  | missing (path : String)
  | notDirectory (path : String)
  | isDirectory (path : String)
  | alreadyExists (path : String)
  | notText (path : String)
  deriving DecidableEq, Repr

/-- The wording of a fault. -/
def FileFault.message : FileFault → String
  | .missing p => "[Errno 2] No such file or directory: " ++ Text.quoted (Text.ofString p)
  | .notDirectory p => "[Errno 20] Not a directory: " ++ Text.quoted (Text.ofString p)
  | .isDirectory p => "[Errno 21] Is a directory: " ++ Text.quoted (Text.ofString p)
  | .alreadyExists p => "[Errno 17] File exists: " ++ Text.quoted (Text.ofString p)
  | .notText p => "not text: " ++ Text.quoted (Text.ofString p)

namespace FileTree

/-- The node under a list of names; the starting points are directories. -/
def lookup (t : FileTree) (names : List String) : Option FileNode :=
  if names = [] ∨ names = ["/"] then some .directory else t.entries.lookup names

/-- Puts a node under a list of names, in place of an earlier one. -/
def put (t : FileTree) (names : List String) (node : FileNode) : FileTree :=
  if t.entries.any fun e => e.1 = names then
    ⟨t.entries.map fun e => if e.1 = names then (names, node) else e⟩
  else ⟨t.entries ++ [(names, node)]⟩

/-- Whether a file lies on the way to a list of names. -/
def throughFile (t : FileTree) (names : List String) : Bool :=
  (List.range names.length).any fun n =>
    match t.lookup (names.take n) with
    | some (.file _) => true
    | _ => false

/-- Whether there is a file or directory under a path. -/
def has (t : FileTree) (p : Path) : Bool := (t.lookup p.resolve).isSome

/-- The content of a file. -/
def read (t : FileTree) (p : Path) : Except FileFault Bytes :=
  match t.lookup p.resolve with
  | some (.file content) => .ok content
  | some .directory => .error (.isDirectory p.text)
  | none => .error (if t.throughFile p.resolve then .notDirectory p.text else .missing p.text)

/-- Writes a file into a directory that exists. -/
def write (t : FileTree) (p : Path) (content : Bytes) : Except FileFault FileTree :=
  let names := p.resolve
  match t.lookup names, t.lookup names.dropLast with
  | some .directory, _ => .error (.isDirectory p.text)
  | _, some .directory => .ok (t.put names (.file content))
  | _, _ => .error (if t.throughFile names then .notDirectory p.text else .missing p.text)

/-- Makes a directory in a directory that exists; nothing is done if it exists itself. -/
def makeDirectory (t : FileTree) (p : Path) : Except FileFault FileTree :=
  let names := p.resolve
  match t.lookup names, t.lookup names.dropLast with
  | some .directory, _ => .ok t
  | some (.file _), _ => .error (.alreadyExists p.text)
  | none, some .directory => .ok (t.put names .directory)
  | none, _ => .error (if t.throughFile names then .notDirectory p.text else .missing p.text)

/-- Makes a directory and those above it. -/
def makeDirectories (t : FileTree) (p : Path) : Except FileFault FileTree :=
  let names := p.resolve
  if t.throughFile names then .error (.notDirectory p.text)
  else
    match t.lookup names with
    | some (.file _) => .error (.alreadyExists p.text)
    | _ =>
      .ok ((List.range (names.length + 1)).foldl (fun t n =>
        if (t.lookup (names.take n)).isSome then t else t.put (names.take n) .directory) t)

/-- Writes a file and makes the directories above it; nothing is done where that cannot be. -/
def store (t : FileTree) (p : Path) (content : Bytes) : FileTree :=
  match t.makeDirectories p.parent with
  | .error _ => t
  | .ok made =>
    match made.write p content with
    | .error _ => made
    | .ok written => written

/-- The tree without a directory and what is below it. -/
def remove (t : FileTree) (p : Path) : FileTree :=
  ⟨t.entries.filter fun e => !p.resolve.isPrefixOf e.1⟩

/-- The files below a directory, by their paths from there. -/
def filesBelow (t : FileTree) (p : Path) : List (String × Bytes) :=
  let names := p.resolve
  t.entries.filterMap fun (key, node) =>
    match node with
    | .file content =>
      if names.isPrefixOf key then some ("/".intercalate (key.drop names.length), content) else none
    | .directory => none

/-- The content of a file in JSON. -/
def contentJson (bs : Bytes) : Json :=
  match bs.toString? with
  | some s => .str s
  | none => .object [("hex", .str bs.hex)]

/-- The files below a directory in JSON. -/
def listing (t : FileTree) (p : Path) : Json :=
  .object ((t.filesBelow p).map fun (name, bs) => (name, contentJson bs))

end FileTree

end ArrowCircuit
