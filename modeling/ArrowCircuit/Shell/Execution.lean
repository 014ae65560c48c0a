import ArrowCircuit.Shell.Printf
import ArrowCircuit.Shell.Script
import ArrowCircuit.Text.Blank
import ArrowCircuit.Tool.Workspace

/-!
# Execution of standard commands

A model of the standard commands and of the shell that runs them: what they print, how they end and how
long they take. Time passes in sleeps, and a little in every process.
-/

namespace ArrowCircuit.Shell

/-- How a process ends. -/
inductive Ending where
  | exit (code : Nat)
  | signal (number : Nat)
  deriving DecidableEq, Repr

/-- The exit code of a process as its parent sees it. -/
def Ending.code : Ending → Int
  | .exit code => code
  | .signal number => -number

/-- What a process does. -/
structure Trace where
  stdout : Bytes := []
  stderr : Bytes := []
  ending : Ending := .exit 0
  /-- How long it sleeps, in nanoseconds. -/
  elapsed : Nat := 0
  deriving Repr

/-! ## Standard commands -/

/-- The hint that goes with a usage fault. -/
def seeHelp (name : String) : String := "Try '" ++ name ++ " --help' for more information.\n"

/-- A process that ends with a message. -/
def complain (code : Nat) (message : String) : Trace :=
  { stderr := Bytes.ofString message, ending := .exit code }

/-- The nanoseconds of a second. -/
def second : Nat := 1000000000

/-- The nanoseconds of a duration with a unit. -/
def duration? (t : Text) : Option Nat :=
  let (whole, rest) := t.span fun c => 0x30 ≤ c && c ≤ 0x39
  let (fraction, rest) := match rest with
    | 0x2e :: rest => rest.span fun c => 0x30 ≤ c && c ≤ 0x39
    | rest => ([], rest)
  let number (ds : Text) := ds.foldl (fun n d => n * 10 + (d - 0x30)) 0
  let unit := match rest with
    | [] | [0x73] => some 1
    | [0x6d] => some 60
    | [0x68] => some 3600
    | [0x64] => some 86400
    | _ => none
  if whole.isEmpty && fraction.isEmpty then none
  else unit.map fun u =>
    (number whole * second + number fraction * second / Nat.pow 10 fraction.length) * u

/-- The command that sleeps for the sum of its arguments. -/
def sleep (arguments : List Text) : Trace :=
  match arguments with
  | [] => complain 1 ("sleep: missing operand\n" ++ seeHelp "sleep")
  | arguments =>
    match arguments.find? fun a => (duration? a).isNone with
    | some a =>
      complain 1 ("sleep: invalid time interval ‘" ++ Text.toStr a ++ "’\n" ++ seeHelp "sleep")
    | none => { elapsed := (arguments.filterMap duration?).foldl (· + ·) 0 }

/-- The command that prints by a format. -/
def printfCommand (arguments : List Text) : Trace :=
  match behindMark arguments with
  | [] => complain 1 ("printf: missing operand\n" ++ seeHelp "printf")
  | template :: arguments =>
    let p := printf .ofCommand template arguments
    let faults := p.notNumbers.map fun a => "printf: ‘" ++ Text.toStr a ++ "’: expected a numeric value\n"
    { stdout := p.output, stderr := Bytes.ofString (String.join faults),
      ending := .exit (if faults.isEmpty then 0 else 1) }

/-! ## The shell -/

/-- The state of a shell: its parameters and variables, the last status, and what has happened. -/
structure State where
  name : Text
  parameters : List Text
  assigned : List (Text × Text) := []
  status : Nat := 0
  /-- Set when the shell has ended. -/
  ending : Option Ending := none
  trace : Trace := {}

/-- The number of the shell's own process. -/
def processId : Text := Text.ofString "4242"

/-- The value of a variable. -/
def State.value (s : State) (name : Text) : Text :=
  match name with
  | [0x24] => processId
  | [0x3f] => Text.ofString (toString s.status)
  | [0x23] => Text.ofString (toString s.parameters.length)
  | [0x40] | [0x2a] => (s.parameters.intersperse [0x20]).flatten
  | [0x30] => s.name
  | name =>
    match name with
    | [c] => if 0x31 ≤ c ∧ c ≤ 0x39 then s.parameters.getD (c - 0x31) []
      else (s.assigned.lookup name).getD []
    | name => (s.assigned.lookup name).getD []

/-- Puts pieces together to words: blanks of what is not quoted divide them. -/
def splitPieces : List (Bool × Text) → (current : Option Text) → List Text
  | [], current => current.toList
  | (true, t) :: rest, current => splitPieces rest (some (current.getD [] ++ t))
  | (false, []) :: rest, current => splitPieces rest current
  | (false, c :: t) :: rest, current =>
    if c = 0x20 ∨ c = 0x9 ∨ c = 0xa then
      match current with
      | some w => w :: splitPieces ((false, t) :: rest) none
      | none => splitPieces ((false, t) :: rest) none
    else splitPieces ((false, t) :: rest) (some (current.getD [] ++ [c]))
termination_by pieces => pieces.foldr (fun p n => p.2.length + 1 + n) 0
decreasing_by all_goals simp_all

/-- The words that a word stands for. -/
def State.expand (s : State) (w : Word) : List Text :=
  splitPieces (w.map fun p => match p with
    | .literal _ t => (true, t)
    | .parameter quoted name => (quoted, s.value name)) none

/-- A word as the value of a variable. -/
def State.expandValue (s : State) (w : Word) : Text :=
  w.flatMap fun p => match p with
    | .literal _ t => t
    | .parameter _ name => s.value name

/-- Where the streams of a command go, the numbers one and two. -/
abbrev Streams := Target × Target

/-- The streams after redirections. -/
def redirect (streams : Streams) (redirections : List Redirection) : Streams :=
  redirections.foldl (fun (out, err) r =>
    let target := match r.target with
      | .stream 1 => out
      | .stream 2 => err
      | t => t
    if r.stream = 1 then (target, err) else (out, target)) streams

/-- Sends bytes to a target. -/
def State.send (s : State) (target : Target) (bs : Bytes) : State :=
  match target with
  | .stream 1 => { s with trace := { s.trace with stdout := s.trace.stdout ++ bs } }
  | .stream 2 => { s with trace := { s.trace with stderr := s.trace.stderr ++ bs } }
  | _ => s

/-- A message of the shell itself. -/
def State.complain (s : State) (streams : Streams) (line status : Nat) (message : String) : State :=
  { s.send streams.2 (Bytes.ofString
      (Text.toStr s.name ++ ": " ++ toString line ++ ": " ++ message ++ "\n")) with status }

/-- The shell after a process has run in it. -/
def State.after (s : State) (streams : Streams) (t : Trace) : State :=
  let s := (s.send streams.1 t.stdout).send streams.2 t.stderr
  let status := match t.ending with
    | .exit code => code
    | .signal number => 128 + number
  { s with status, trace := { s.trace with elapsed := s.trace.elapsed + t.elapsed } }

/-- The number of a signal by its name. -/
def signalNumber? (t : Text) : Option Nat :=
  let names := [("HUP", 1), ("INT", 2), ("QUIT", 3), ("ABRT", 6), ("KILL", 9), ("USR1", 10), ("SEGV", 11),
    ("USR2", 12), ("PIPE", 13), ("ALRM", 14), ("TERM", 15)]
  match names.find? fun (name, _) => t = Text.ofString name ∨ t = Text.ofString ("SIG" ++ name) with
  | some (_, n) => some n
  | none =>
    if !t.isEmpty && t.all fun c => 0x30 ≤ c && c ≤ 0x39 then
      some (t.foldl (fun n c => n * 10 + (c - 0x30)) 0)
    else none

/-- The signal that a call of `kill` sends to the shell itself. -/
def selfSignal? : List Text → Option Nat
  | [target] => if target = processId then some 15 else none
  | [flag, name, target] =>
    if flag = Text.ofString "-s" ∧ target = processId then signalNumber? name else none
  | [flag, target] =>
    if flag.headD 0 = 0x2d ∧ target = processId then signalNumber? (flag.drop 1) else none
  | _ => none

/-- The text that `echo` prints. -/
def echo (arguments : List Text) : Bytes :=
  let (newline, arguments) := match arguments with
    | first :: rest => if first = Text.ofString "-n" then (false, rest) else (true, first :: rest)
    | [] => (true, [])
  let text := (arguments.intersperse [0x20]).flatten
  let (bs, stopped) := unescape .echoed (text.length + 1) text
  if stopped || !newline then bs else bs ++ [0xa]

/-- The decimal number that `exit` is given. -/
def exitCode? (t : Text) : Option Nat :=
  if !t.isEmpty && t.all fun c => 0x30 ≤ c && c ≤ 0x39 then
    some (t.foldl (fun n c => n * 10 + (c - 0x30)) 0 % 256)
  else none

/-- Ends the shell with a status. -/
def State.exit (s : State) (code : Nat) : State := { s with status := code, ending := some (.exit code) }

/-- Runs a command by its words. -/
def State.runWords (s : State) (line : Nat) (streams : Streams) : (words : List Text) → State
  | [] => { s with status := 0 }
  | name :: arguments =>
    match Text.toStr name with
    | ":" | "true" => { s with status := 0 }
    | "false" => { s with status := 1 }
    | "echo" => { s.send streams.1 (echo arguments) with status := 0 }
    | "printf" =>
      match behindMark arguments with
      | [] => s.complain streams line 2 "printf: usage: printf format [arg ...]"
      | template :: arguments =>
        let p := printf .ofShell template arguments
        let s := { s.send streams.1 p.output with status := 0 }
        p.notNumbers.foldl (fun s a =>
          s.complain streams line 1 ("printf: " ++ Text.toStr a ++ ": expected numeric value")) s
    | "sleep" => s.after streams (sleep arguments)
    | "kill" =>
      match selfSignal? arguments with
      | some 0 => { s with status := 0 }
      | some n => { s with ending := some (.signal n) }
      | none => s.complain streams line 1 "kill: No such process"
    | "exit" =>
      match arguments with
      | [] => s.exit s.status
      | a :: _ =>
        match exitCode? a with
        | some code => s.exit code
        | none =>
          (s.complain streams line 2 ("exit: Illegal number: " ++ Text.toStr a)).exit 2
    | shown => s.complain streams line 127 (shown ++ ": not found")

/-- The name and the value of an assignment. -/
def assignment? (w : Word) : Option (Text × Word) :=
  let (name, rest) := w.span fun p => match p with
    | .literal false [c] => isNameChar c
    | _ => false
  match name, rest with
  | _ :: _, .literal false [0x3d] :: value =>
    let name := name.flatMap fun p => match p with
      | .literal _ t => t
      | .parameter .. => []
    if 0x30 ≤ name.headD 0 ∧ name.headD 0 ≤ 0x39 then none else some (name, value)
  | _, _ => none

/-- Sets the variables of leading assignments; the other words are left. -/
def State.assign (s : State) : List Word → State × List Word
  | [] => (s, [])
  | w :: rest =>
    match assignment? w with
    | some (name, value) =>
      State.assign { s with assigned := (name, s.expandValue value) :: s.assigned, status := 0 } rest
    | none => (s, w :: rest)

/-- Runs a command, unless the shell has ended. -/
def State.run (s : State) (streams : Streams) (c : Command) : State :=
  if s.ending.isSome then s
  else
    match c with
    | .skip => s
    | .simple line words redirections =>
      let streams := redirect streams redirections
      let (s, words) := s.assign words
      match words.flatMap s.expand with
      | [] => s
      | words =>
        match words with
        | name :: rest =>
          if name = Text.ofString "exec" ∧ !rest.isEmpty then
            let s := s.runWords line streams rest
            { s with ending := s.ending.or (some (.exit s.status)) }
          else s.runWords line streams words
        | [] => s
    | .sequence first second => (s.run streams first).run streams second
    | .both first second =>
      let s := s.run streams first
      if s.status = 0 then s.run streams second else s
    | .either first second =>
      let s := s.run streams first
      if s.status = 0 then s else s.run streams second
    | .negated c =>
      let s := s.run streams c
      if s.ending.isSome then s else { s with status := if s.status = 0 then 1 else 0 }
    | .branch condition consequent alternate =>
      let s := s.run streams condition
      if s.status = 0 then s.run streams consequent
      else { s with status := 0 }.run streams alternate
    | .redirected c redirections => s.run (redirect streams redirections) c
    | .subshell c =>
      let inner := s.run streams c
      { inner with assigned := s.assigned, ending := match inner.ending with
          | some (.signal n) => some (.signal n)
          | _ => none }

/-- The shell on its arguments: a script behind `-c`, or a file, of which there is none. -/
def shell (name : Text) (arguments : List Text) : Trace :=
  let shown := Text.toStr name
  match arguments with
  | [] => {}
  | flag :: rest =>
    if flag = Text.ofString "-c" then
      match rest with
      | [] => complain 2 (shown ++ ": 0: -c requires an argument\n")
      | script :: rest =>
        let name := rest.headD name
        match parse script with
        | .error f => complain 2 (f.message (Text.toStr name))
        | .ok c =>
          let s := State.run { name, parameters := rest.drop 1 } (.stream 1, .stream 2) c
          { s.trace with ending := s.ending.getD (.exit s.status) }
    else complain 2 (shown ++ ": 0: cannot open " ++ Text.toStr flag ++ ": No such file\n")

/-! ## Calls -/

/-- The standard commands. -/
def commands : List String := ["sh", "true", "false", "printf", "sleep"]

/-- The command of a path, if it is one of the standard ones. -/
def command? (path : String) : Option String :=
  commands.find? fun name => path = name ∨ path = "/bin/" ++ name ∨ path = "/usr/bin/" ++ name

/-- Whether a tool is one of the standard commands. -/
def isInstalled (path : String) : Bool := (command? path).isSome

/-- What a standard command does. -/
def trace (command path : String) (arguments : List Text) : Trace :=
  match command with
  | "sh" => shell (Text.ofString path) arguments
  | "true" => {}
  | "false" => { ending := .exit 1 }
  | "printf" => printfCommand arguments
  | _ => sleep arguments

/-- A limit in nanoseconds; none where nothing is set. -/
def limit (timeout : Value) : Except Fault (Option Int) :=
  match timeout with
  | .null => .ok none
  | .int z => .ok (some (z * second))
  | .bool b => .ok (some (if b then second else 0))
  | .real x => .ok (x.scale second).truncate?
  | v =>
    .error (.reported .kind ("unsupported operand type(s) for +: 'float' and '" ++ v.typeName ++ "'"))

/-- The time that every process takes, in nanoseconds. -/
def startup : Nat := 1000000

/-- The text of what a process prints, with uniform line ends. -/
def outputText (bs : Bytes) : Except Fault String :=
  match Bytes.toString? bs with
  | some s => .ok (Text.unifyLineEnds s)
  | none => .error (.file (.notText "output"))

/-- Carries out a call of a standard command within a time limit. -/
def call (timeout : Value) (c : Tool.Call) : Except Fault Tool.Result := do
  match command? c.binary with
  | none => throw (.tool (.notFound c))
  | some command =>
    let t := trace command c.binary (c.arguments.map Text.ofString)
    let bound ← limit timeout
    if bound.any fun (b : Int) => b < Int.ofNat (t.elapsed + startup) then
      let shown ← timeout.display.mapError .numeral
      throw (.tool (.timedOut c (Text.toStr shown)))
    let stdout ← outputText t.stdout
    let stderr ← outputText t.stderr
    if t.ending.code ≠ 0 then throw (.tool (.failed c t.ending.code stdout stderr))
    return ⟨c.command, stdout, stderr, 0⟩

/-- The executor of standard commands. -/
def executor (timeout : Value) : Tool.Executor Unit where
  run c s := (call timeout c, s)

end ArrowCircuit.Shell
