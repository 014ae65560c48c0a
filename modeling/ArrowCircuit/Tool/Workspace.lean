import ArrowCircuit.Bytes.Basic
import ArrowCircuit.Run

/-!
# Workspaces of tools

Tools run in a workspace: a tree of files, the state of whoever carries out the calls, and the number
of temporary directories made so far. Calls are carried out by an executor, which may change files.
-/

namespace ArrowCircuit.Tool

/-- Carries out calls on a tree of files. -/
structure Executor (ξ : Type) where
  run : Call → FileTree × ξ → Except Fault Result × (FileTree × ξ)

/-- What tools work on. -/
structure Workspace (ξ : Type) where
  files : FileTree := {}
  tools : ξ
  directories : Nat := 0

/-- How tools are called, and how temporary directories are named: by a hint and a number. -/
structure Toolbox (ξ : Type) where
  executor : Executor ξ
  directoryName : String → Nat → Path

namespace Workspace

variable {ξ : Type}

/-- Calls a tool. -/
def call (T : Toolbox ξ) (c : Call) : Run (Workspace ξ) Result :=
  Run.ofStep fun w =>
    let (result, (files, tools)) := T.executor.run c (w.files, w.tools)
    (result, { w with files, tools })

/-- Changes the files. -/
def change (f : FileTree → Except FileFault FileTree) : Run (Workspace ξ) Unit :=
  Run.ofStep fun w =>
    match f w.files with
    | .ok files => (.ok (), { w with files })
    | .error e => (.error (.file e), w)

/-- Reads a file. -/
def read (p : Path) : Run (Workspace ξ) Bytes :=
  Run.ofStep fun w => ((w.files.read p).mapError .file, w)

/-- Writes a file. -/
def write (p : Path) (content : Bytes) : Run (Workspace ξ) Unit := change (·.write p content)

/-- Makes a directory, if there is none. -/
def makeDirectory (p : Path) : Run (Workspace ξ) Unit := change (·.makeDirectory p)

/-- Whether there is a file or directory. -/
def has (p : Path) : Run (Workspace ξ) Bool := Run.ofStep fun w => (.ok (w.files.has p), w)

/-- A new temporary directory. -/
def temporary (T : Toolbox ξ) (hint : String) : Run (Workspace ξ) Path :=
  Run.ofStep fun w =>
    let p := T.directoryName hint (w.directories + 1)
    match w.files.makeDirectories p with
    | .ok files => (.ok p, { w with files, directories := w.directories + 1 })
    | .error e => (.error (.file e), w)

/-- Fails with a fault of the toolchain unless there is a file. -/
def require (p : Path) (fault : Toolchain.Fault) : Run (Workspace ξ) Unit := do
  if !(← has p) then Run.fault (.toolchain fault)

/-- Whether a call ends well; a verifier's word that the proof is wrong is no fault. -/
def accepts (T : Toolbox ξ) (c : Call) : Run (Workspace ξ) Bool :=
  Run.ofStep fun w =>
    match (call T c).exec w with
    | (.ok _, w) => (.ok true, w)
    | (.error (.tool f), w) => if f.isRejection then (.ok false, w) else (.error (.tool f), w)
    | (.error f, w) => (.error f, w)

end Workspace

end ArrowCircuit.Tool
