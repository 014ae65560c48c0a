import ArrowCircuit.Json.Document
import ArrowCircuit.Json.Reader
import ArrowCircuit.Run
import ArrowCircuit.Text.Blank

/-!
# Desks

A desk is what a run of the pipeline works on: files, the lines printed so far, a source of randomness,
and the number of temporary directories made for tools. Texts are read with uniform line ends. A
document appears under its name only when it is complete, so a fault leaves an earlier one in place.
-/

namespace ArrowCircuit

/-- What a run works on. -/
structure Desk where
  files : FileTree := {}
  output : String := ""
  entropy : Entropy
  directories : Nat := 0

namespace Desk

/-- Prints a line. -/
def print (line : String) : Run Desk Unit := modify fun d => { d with output := d.output ++ line ++ "\n" }

/-- Prints lines. -/
def printAll (lines : List String) : Run Desk Unit := lines.forM print

/-- Changes the files. -/
def change (f : FileTree → Except FileFault FileTree) : Run Desk Unit := do
  let files ← Run.lift .file (f (← get).files)
  modify fun d => { d with files }

/-- Makes a directory and those above it. -/
def makeDirectories (p : Path) : Run Desk Unit := change (·.makeDirectories p)

/-- The text of a file. -/
def readText (p : Path) : Run Desk String := do
  let bytes ← Run.lift .file ((← get).files.read p)
  match bytes.toString? with
  | some s => return Text.unifyLineEnds s
  | none => Run.fault (.file (.notText p.text))

/-- The JSON value of a file; none if there is no file. -/
def readJson? (p : Path) : Run Desk (Option Json) := do
  if !(← get).files.has p then return none
  return some (← Run.lift .json (Json.read (← readText p)))

/-- Writes a text into a directory that exists. -/
def writeText (p : Path) (text : String) : Run Desk Unit := change (·.write p (Bytes.ofString text))

/-- Writes a document with sorted names, two blanks a level, and makes the directories above it. -/
def writeDocument (p : Path) (v : Json) : Run Desk Unit := do
  makeDirectories p.parent
  writeText p (← Run.lift id (v.document (.ofIndent none)))

end Desk

end ArrowCircuit
