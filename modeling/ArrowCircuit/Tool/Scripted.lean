import ArrowCircuit.Tool.Workspace
import ArrowCircuit.Value.Tagged

/-!
# Scripted tools

An executor that plays a script in place of real tools. For each command, by the binary and its first
argument, the script lists effects: files to write and a failure. The effects are played in turn, and
the last one is repeated.
-/

namespace ArrowCircuit.Tool

/-- What a call does: the files it writes, and how it fails, if it does. -/
structure Effect where
  writes : List (String × Bytes) := []
  failure : Option Failure := none
  deriving DecidableEq, Repr

/-- What has been played: how often each command, and all calls. -/
structure Played where
  counts : List (String × Nat) := []
  calls : List Call := []
  deriving DecidableEq, Repr

namespace Effect

/-- The path of an argument without its last suffix. -/
def stem (argument : String) : String :=
  let p := Path.ofString argument
  match p.name.splitOn "." with
  | [] | [_] => argument
  | parts => (p.parent.join (".".intercalate parts.dropLast)).text

/-- A path with its placeholders replaced: the working directory, and for each argument the argument
itself, its directory and its stem. -/
def place (c : Call) (path : String) : Path :=
  let mark (name : String) := "\x7b" ++ name ++ "\x7d"
  let start := path.replace (mark "cwd") ((c.workingDirectory.map Path.text).getD "")
  Path.ofString (c.arguments.zipIdx.foldl (fun s (a, i) =>
    let number := toString i
    ((s.replace (mark ("arg" ++ number)) a).replace (mark ("dir" ++ number))
      (Path.ofString a).parent.text).replace (mark ("stem" ++ number)) (stem a)) start)

/-- The files after an effect; directories are made where they are missing. -/
def apply (e : Effect) (c : Call) (files : FileTree) : FileTree :=
  e.writes.foldl (fun files (path, content) => files.store (place c path) content) files

/-- The content of a file in JSON: a text, or bytes in hexadecimal. -/
def contentOfJson (v : Json) : Bytes :=
  match v.field? "hex" with
  | some digits => Value.readHex digits.string.toList
  | none => Bytes.ofString v.string

/-- The effect of an object. -/
def ofJson (v : Json) : Effect where
  writes := (v.part "write").fields.map fun f => (f.1, contentOfJson f.2)
  failure := (v.field? "fail").map fun f =>
    { message := (f.part "message").string
      exitCode := (match f.part "exit_code" with
        | .int z => some z
        | _ => none)
      stderr := (f.part "stderr").string }

end Effect

/-- The executor of a script. -/
def scripted (script : String → List Effect) : Executor Played where
  run c := fun (files, played) =>
    let key := c.binary ++ " " ++ c.arguments.headD ""
    let n := (played.counts.lookup key).getD 0
    let played := { counts := (key, n + 1) :: played.counts, calls := played.calls ++ [c] }
    let effects := script key
    let e := ((effects[n]?).or effects.getLast?).getD {}
    let result := match e.failure with
      | none => .ok ⟨c.command, "", "", 0⟩
      | some f => .error (.tool { f with command := c.command })
    (result, (e.apply c files, played))

/-- The toolbox of a script; temporary directories are numbered. -/
def scriptedToolbox (script : Json) : Toolbox Played where
  executor := scripted fun key => (script.part key).items.map Effect.ofJson
  directoryName := fun _ n => Path.ofString ("<dir" ++ toString n ++ ">")

end ArrowCircuit.Tool
