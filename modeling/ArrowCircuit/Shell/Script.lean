import ArrowCircuit.Text.Blank

/-!
# Shell scripts

The part of the shell's language that one-line scripts are written in: words with quotes and variables,
simple commands with redirections, lists, conditions and groups.
-/

namespace ArrowCircuit.Shell

/-- A part of a word. What is quoted is not split into several words. -/
inductive Part where
  | literal (quoted : Bool) (text : Text)
  | parameter (quoted : Bool) (name : Text)
  deriving DecidableEq, Repr

/-- A word before its variables are replaced. -/
abbrev Word := List Part

/-- Where a stream is sent. -/
inductive Target where
  | stream (number : Nat)
  | discard
  deriving DecidableEq, Repr

/-- A stream that is sent elsewhere. -/
structure Redirection where
  stream : Nat
  target : Target
  deriving DecidableEq, Repr

/-- A command. -/
inductive Command where
  | skip
  | simple (line : Nat) (words : List Word) (redirections : List Redirection)
  | sequence (first second : Command)
  | both (first second : Command)
  | either (first second : Command)
  | negated (command : Command)
  | branch (condition consequent alternate : Command)
  | redirected (command : Command) (redirections : List Redirection)
  | subshell (command : Command)
  deriving Repr

/-- Why a script is not read. -/
inductive ScriptFault where
  | unterminatedQuote (line : Nat)
  | unexpected (line : Nat) (token : String)
  deriving DecidableEq, Repr

/-- The wording of a fault. -/
def ScriptFault.message (name : String) : ScriptFault → String
  | .unterminatedQuote line =>
    name ++ ": " ++ toString line ++ ": Syntax error: Unterminated quoted string\n"
  | .unexpected line token =>
    name ++ ": " ++ toString line ++ ": Syntax error: " ++ token ++ " unexpected\n"

/-! ## Tokens -/

/-- A token of a script, with its line. -/
inductive Token where
  | word (parts : Word)
  | operator (symbol : String)
  | redirection (r : Redirection)
  /-- A redirection to a file, whose name is the next word. -/
  | toFile (stream : Nat)
  | newline
  deriving DecidableEq, Repr

/-- Whether a code point can be in the name of a variable. -/
def isNameChar (c : Nat) : Bool :=
  (0x30 ≤ c && c ≤ 0x39) || (0x41 ≤ c && c ≤ 0x5a) || c == 0x5f || (0x61 ≤ c && c ≤ 0x7a)

/-- Whether a code point ends a word. -/
def endsWord (c : Nat) : Bool :=
  c == 0x20 || c == 0x9 || c == 0xa || (Text.ofString ";&|<>()").contains c

/-- The name of a variable behind a dollar sign. -/
def readVariable : Text → Option (Text × Text)
  | 0x7b :: rest =>
    match rest.span (· ≠ 0x7d) with
    | (name, _ :: rest) => some (name, rest)
    | _ => none
  | c :: rest =>
    if (Text.ofString "$?#@*!").contains c || (0x30 ≤ c && c ≤ 0x39) then some ([c], rest)
    else if isNameChar c then
      let (name, rest) := (c :: rest).span isNameChar
      some (name, rest)
    else none
  | [] => none

/-- The parts between double quotes, and the text behind them. -/
def readQuoted : (fuel : Nat) → Text → List Part → Option (List Part × Text)
  | 0, _, _ => none
  | _, [], _ => none
  | _, 0x22 :: rest, parts => some (parts, rest)
  | fuel + 1, 0x5c :: 0xa :: rest, parts => readQuoted fuel rest parts
  | fuel + 1, 0x5c :: c :: rest, parts =>
    let shown := if [0x24, 0x60, 0x22, 0x5c].contains c then [c] else [0x5c, c]
    readQuoted fuel rest (.literal true shown :: parts)
  | fuel + 1, 0x24 :: rest, parts =>
    match readVariable rest with
    | some (name, rest) => readQuoted fuel rest (.parameter true name :: parts)
    | none => readQuoted fuel rest (.literal true [0x24] :: parts)
  | fuel + 1, c :: rest, parts => readQuoted fuel rest (.literal true [c] :: parts)

/-- A word, its last part first, and the text behind it. -/
def readWord : (fuel : Nat) → Text → List Part → Option (List Part × Text)
  | 0, rest, parts => some (parts, rest)
  | _, [], parts => some (parts, [])
  | fuel + 1, 0x27 :: rest, parts =>
    match rest.span (· ≠ 0x27) with
    | (body, _ :: rest) => readWord fuel rest (.literal true body :: parts)
    | _ => none
  | fuel + 1, 0x22 :: rest, parts =>
    match readQuoted fuel rest (.literal true [] :: parts) with
    | some (parts, rest) => readWord fuel rest parts
    | none => none
  | fuel + 1, 0x5c :: 0xa :: rest, parts => readWord fuel rest parts
  | fuel + 1, 0x5c :: c :: rest, parts => readWord fuel rest (.literal true [c] :: parts)
  | fuel + 1, 0x24 :: rest, parts =>
    match readVariable rest with
    | some (name, rest) => readWord fuel rest (.parameter false name :: parts)
    | none => readWord fuel rest (.literal false [0x24] :: parts)
  | fuel + 1, c :: rest, parts =>
    if endsWord c then some (parts, c :: rest) else readWord fuel rest (.literal false [c] :: parts)

/-- A redirection of a stream, behind its sign. -/
def readRedirection (stream : Nat) : Text → Token × Text
  | 0x26 :: c :: rest =>
    if 0x30 ≤ c ∧ c ≤ 0x39 then (.redirection ⟨stream, .stream (c - 0x30)⟩, rest)
    else (.redirection ⟨stream, .discard⟩, rest)
  | 0x3e :: rest => (.toFile stream, rest)
  | rest => (.toFile stream, rest)

/-- The tokens of a script with their lines. -/
def tokens : (fuel line : Nat) → Text → Except ScriptFault (List (Nat × Token))
  | 0, _, _ => .ok []
  | _, _, [] => .ok []
  | fuel + 1, line, c :: rest =>
    let push (t : Token) (rest : Text) := do return (line, t) :: (← tokens fuel line rest)
    if c = 0x20 ∨ c = 0x9 then tokens fuel line rest
    else if c = 0xa then do return (line, .newline) :: (← tokens fuel (line + 1) rest)
    else if c = 0x23 then tokens fuel line (rest.dropWhile (· ≠ 0xa))
    else
      match c :: rest with
      | 0x26 :: 0x26 :: rest => push (.operator "&&") rest
      | 0x7c :: 0x7c :: rest => push (.operator "||") rest
      | 0x3e :: rest =>
        let (t, rest) := readRedirection 1 rest
        push t rest
      | 0x31 :: 0x3e :: rest =>
        let (t, rest) := readRedirection 1 rest
        push t rest
      | 0x32 :: 0x3e :: rest =>
        let (t, rest) := readRedirection 2 rest
        push t rest
      | c :: rest =>
        if endsWord c then push (.operator (Text.toStr [c])) rest
        else
          match readWord (rest.length + 2) (c :: rest) [] with
          | some (parts, rest) => push (.word parts.reverse) rest
          | none => .error (.unterminatedQuote line)
      | [] => .ok []

/-! ## Commands -/

/-- The text of a word that is written without quotes and variables. -/
def bareWord (w : Word) : Option String :=
  if w.all fun p => match p with
    | .literal quoted _ => !quoted
    | .parameter .. => false
  then some (String.join (w.map fun p => match p with
    | .literal _ t => Text.toStr t
    | .parameter .. => ""))
  else none

/-- Whether a token is a given bare word. -/
def Token.isWord (t : Token) (s : String) : Bool :=
  match t with
  | .word w => bareWord w = some s
  | _ => false

/-- How a token is shown in a message. -/
def Token.shown : Token → String
  | .operator s => "\"" ++ s ++ "\""
  | .newline => "newline"
  | .word w => (bareWord w).elim "word" fun s => "\"" ++ s ++ "\""
  | _ => "redirection"

/-- Tokens that are still to be read. -/
abbrev Tokens := List (Nat × Token)

/-- The fault at the next token. -/
def unexpected : Tokens → ScriptFault
  | (line, t) :: _ => .unexpected line t.shown
  | [] => .unexpected 1 "end of file"

/-- Drops the ends of lines. -/
def dropNewlines : Tokens → Tokens := List.dropWhile fun t => t.2 = .newline

/-- The words and redirections of a simple command. -/
def readSimple : Tokens → List Word × List Redirection × Tokens
  | (_, .word w) :: rest =>
    let (words, redirections, rest) := readSimple rest
    (w :: words, redirections, rest)
  | (_, .redirection r) :: rest =>
    let (words, redirections, rest) := readSimple rest
    (words, r :: redirections, rest)
  | (_, .toFile stream) :: (_, .word _) :: rest =>
    let (words, redirections, rest) := readSimple rest
    (words, ⟨stream, .discard⟩ :: redirections, rest)
  | rest => ([], [], rest)

/-- The words that end a list of commands. -/
def closers : List String := ["then", "else", "fi", "\x7d"]

mutual

/-- A single command. -/
def readCommand : (fuel : Nat) → Tokens → Except ScriptFault (Command × Tokens)
  | 0, ts => .error (unexpected ts)
  | fuel + 1, ts =>
    match ts with
    | (line, .operator "(") :: rest => do
      let (body, rest) ← readList fuel rest
      match rest with
      | (_, .operator ")") :: rest => return (.subshell body, rest)
      | _ => .error (if rest.isEmpty then .unexpected line "end of file" else unexpected rest)
    | (line, .word w) :: rest =>
      match bareWord w with
      | some "!" => do
        let (c, rest) ← readCommand fuel rest
        return (.negated c, rest)
      | some "\x7b" => do
        let (body, rest) ← readList fuel rest
        match rest with
        | (_, t) :: rest =>
          if t.isWord "\x7d" then
            let (_, redirections, rest) := readSimple rest
            return (.redirected body redirections, rest)
          else .error (.unexpected line t.shown)
        | [] => .error (.unexpected line "end of file")
      | some "if" => readBranch fuel rest
      | _ =>
        let (words, redirections, rest) := readSimple ts
        return (.simple line words redirections, rest)
    | (line, .redirection _) :: _ | (line, .toFile _) :: _ =>
      let (words, redirections, rest) := readSimple ts
      return (.simple line words redirections, rest)
    | ts => .error (unexpected ts)

/-- A condition and its branches, behind the word that opens it. -/
def readBranch : (fuel : Nat) → Tokens → Except ScriptFault (Command × Tokens)
  | 0, ts => .error (unexpected ts)
  | fuel + 1, ts => do
    let (condition, ts) ← readList fuel ts
    match ts with
    | (_, t) :: ts =>
      if !t.isWord "then" then throw (unexpected ((1, t) :: ts))
      let (consequent, ts) ← readList fuel ts
      match ts with
      | (_, t) :: ts =>
        if t.isWord "fi" then return (.branch condition consequent .skip, ts)
        else if t.isWord "else" then
          let (alternate, ts) ← readList fuel ts
          match ts with
          | (_, t) :: ts =>
            if t.isWord "fi" then return (.branch condition consequent alternate, ts)
            else .error (unexpected ((1, t) :: ts))
          | [] => .error (unexpected [])
        else .error (unexpected ((1, t) :: ts))
      | [] => .error (unexpected [])
    | [] => .error (unexpected [])

/-- What follows a command in a chain of conditions. -/
def readChain : (fuel : Nat) → Command → Tokens → Except ScriptFault (Command × Tokens)
  | 0, c, ts => .ok (c, ts)
  | fuel + 1, c, ts =>
    match ts with
    | (_, .operator "&&") :: rest => do
      let (next, rest) ← readCommand fuel (dropNewlines rest)
      readChain fuel (.both c next) rest
    | (_, .operator "||") :: rest => do
      let (next, rest) ← readCommand fuel (dropNewlines rest)
      readChain fuel (.either c next) rest
    | ts => .ok (c, ts)

/-- A list of commands, up to a word that closes it or the end. -/
def readList : (fuel : Nat) → Tokens → Except ScriptFault (Command × Tokens)
  | 0, ts => .error (unexpected ts)
  | fuel + 1, ts =>
    let ts := dropNewlines ts
    match ts with
    | [] => .ok (.skip, [])
    | (_, .operator ")") :: _ => .ok (.skip, ts)
    | (_, t) :: _ =>
      if closers.any t.isWord then .ok (.skip, ts)
      else do
        let (first, ts) ← readCommand fuel ts
        let (first, ts) ← readChain fuel first ts
        match ts with
        | (_, .operator ";") :: rest | (_, .newline) :: rest => do
          let (rest, ts) ← readList fuel rest
          return (.sequence first rest, ts)
        | ts => return (first, ts)

end

/-- The command of a script. -/
def parse (script : Text) : Except ScriptFault Command := do
  let ts ← tokens (script.length + 1) 1 script
  let (c, rest) ← readList (4 * ts.length + 4) ts
  if rest.isEmpty then return c else throw (unexpected rest)

end ArrowCircuit.Shell
