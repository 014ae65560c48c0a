import ArrowCircuit.Text.Digit

/-!
# Arguments

The arguments of a command line are switches, values of switches, and words that belong to none. A long
switch may be shortened as long as one switch alone starts so; a value may stand behind an equals sign,
or directly behind a short switch; short switches without a value may be written together. Behind a
double hyphen there are only words.
-/

namespace ArrowCircuit.CommandLine

/-- The switches that have a value. -/
inductive Setting where
  | input
  | outDir
  | config
  | inputs
  | provider
  | chain
  deriving DecidableEq, Repr

/-- The switches without a value. -/
inductive Flag where
  | help
  | quiet
  | verbose
  deriving DecidableEq, Repr

/-- A switch. -/
inductive Switch where
  | setting (s : Setting)
  | flag (f : Flag)
  deriving DecidableEq, Repr

/-- The switches by their names. -/
def switches : List (String × Switch) :=
  [("-h", .flag .help), ("--help", .flag .help),
    ("--input", .setting .input), ("-i", .setting .input),
    ("--out-dir", .setting .outDir), ("-o", .setting .outDir),
    ("--config", .setting .config), ("-c", .setting .config),
    ("--inputs", .setting .inputs),
    ("--provider", .setting .provider),
    ("--chain", .setting .chain),
    ("--quiet", .flag .quiet),
    ("--verbose", .flag .verbose), ("-v", .flag .verbose)]

/-- The values that a setting is restricted to; any if there are none. -/
def Setting.choices : Setting → List String
  | .provider => ["groth16", "ultrahonk", "sunspot"]
  | .chain => ["solana"]
  | _ => []

/-- Why the arguments are not carried out. -/
inductive Refusal where
  /-- Help is asked for. -/
  | help
  /-- The arguments are not those of the program. -/
  | misuse
  deriving DecidableEq, Repr

/-- What an argument is, read on its own. -/
inductive Item where
  /-- A value, if a switch stands before it that wants one. -/
  | word (text : String)
  /-- A switch by its long name, perhaps with a value behind an equals sign. -/
  | long (s : Switch) (value : Option String)
  /-- A switch by its letter, with what is written behind it. -/
  | short (s : Switch) (rest : List Char)
  /-- A double hyphen, or something like a switch that is none. -/
  | stray
  deriving DecidableEq, Repr

/-! ## Reading arguments one by one -/

/-- The parts before and behind the first equals sign. -/
def splitEquals (cs : List Char) : List Char × Option (List Char) :=
  match cs.dropWhile (· ≠ '=') with
  | [] => (cs, none)
  | _ :: value => (cs.takeWhile (· ≠ '='), some value)

/-- Whether a character is a decimal digit. -/
def isDigit (c : Char) : Bool := (Text.decimalValue? c.toNat).isSome

/-- Whether a text is a negative number: digits, or a point with digits behind it. -/
def isNegativeNumber (cs : List Char) : Bool :=
  let cs := if cs.getLast? = some '\n' then cs.dropLast else cs
  match cs with
  | '-' :: rest =>
    match rest.dropWhile isDigit with
    | [] => !rest.isEmpty
    | '.' :: fraction => !fraction.isEmpty && fraction.all isDigit
    | _ => false
  | _ => false

/-- The switch of a letter. -/
def short? (letter : Char) : Option Switch := switches.lookup (String.ofList ['-', letter])

/-- The switches that a long name stands for: the one that has this name, or else all whose names start
so. -/
def longMatches (name : List Char) : List Switch :=
  match switches.lookup (String.ofList name) with
  | some s => [s]
  | none => (switches.filter fun (n, _) => name.isPrefixOf n.toList).map (·.2)

/-- What an argument is that names no switch: a number and a text with a blank are words. -/
def unnamed (cs : List Char) : Item :=
  if isNegativeNumber cs ∨ ' ' ∈ cs then .word (String.ofList cs) else .stray

/-- Reads an argument before any double hyphen. A name that may stand for several switches is refused. -/
def readItem (arg : String) : Except Refusal Item :=
  match arg.toList with
  | '-' :: '-' :: rest =>
    let (name, value) := splitEquals ('-' :: '-' :: rest)
    match longMatches name with
    | [] => .ok (unnamed arg.toList)
    | [s] => .ok (.long s (value.map String.ofList))
    | _ => .error .misuse
  | '-' :: letter :: rest =>
    match short? letter with
    | some s => .ok (.short s rest)
    | none => .ok (unnamed arg.toList)
  | _ => .ok (.word arg)

/-- Reads all arguments. -/
def readItems : List String → Except Refusal (List Item)
  | [] => .ok []
  | "--" :: rest => .ok (.stray :: rest.map .word)
  | arg :: rest => do
    let item ← readItem arg
    return item :: (← readItems rest)

/-! ## Putting switches and values together -/

/-- What the arguments say. -/
structure Arguments where
  values : List (Setting × String) := []
  quiet : Bool := false
  verbose : Bool := false
  /-- Whether something was left over. -/
  leftOver : Bool := false
  deriving DecidableEq, Repr

/-- The value of a setting: the last one given. -/
def Arguments.value? (a : Arguments) (s : Setting) : Option String := a.values.lookup s

/-- What a switch comes to: flags, a setting that may come last with its value, and whether a letter was
left over that is no switch. -/
structure Expansion where
  flags : List Flag := []
  setting : Option (Setting × Option String) := none
  leftOver : Bool := false
  deriving DecidableEq, Repr

/-- A switch by its letter, with what is written behind it: the value of a setting, perhaps behind an
equals sign, or further letters behind a flag. -/
def expandShort : Switch → List Char → Except Refusal Expansion
  | .setting s, [] => .ok { setting := some (s, none) }
  | .setting s, '=' :: value => .ok { setting := some (s, some (String.ofList value)) }
  | .setting s, value => .ok { setting := some (s, some (String.ofList value)) }
  | .flag f, [] => .ok { flags := [f] }
  | .flag f, letter :: rest =>
    if letter = '=' ∨ letter = '-' then .error .misuse
    else
      match short? letter with
      | none => .ok { flags := [f], leftOver := true }
      | some s => do
        let e ← expandShort s rest
        return { e with flags := f :: e.flags }

/-- A switch by its long name. -/
def expandLong : Switch → Option String → Except Refusal Expansion
  | .setting s, value => .ok { setting := some (s, value) }
  | .flag f, none => .ok { flags := [f] }
  | .flag _, some _ => .error .misuse

/-- What an item comes to; a word that no switch takes is left over. -/
def Item.expand : Item → Except Refusal Expansion
  | .long s value => expandLong s value
  | .short s rest => expandShort s rest
  | .word _ | .stray => .ok { leftOver := true }

namespace Arguments

/-- Takes in a flag. -/
def setFlag (a : Arguments) : Flag → Except Refusal Arguments
  | .help => .error .help
  | .quiet => .ok { a with quiet := true }
  | .verbose => .ok { a with verbose := true }

/-- Takes in the value of a setting. -/
def setValue (a : Arguments) (s : Setting) (value : String) : Except Refusal Arguments :=
  if s.choices ≠ [] ∧ value ∉ s.choices then .error .misuse
  else .ok { a with values := (s, value) :: a.values }

/-- Takes in the flags that an item comes to. -/
def setFlags (a : Arguments) (e : Expansion) : Except Refusal Arguments :=
  e.flags.foldlM setFlag { a with leftOver := a.leftOver || e.leftOver }

/-- Takes in items from the left. A setting without a value of its own takes the next word. -/
def take (a : Arguments) : List Item → Except Refusal Arguments
  | [] => .ok a
  | item :: rest => do
    let e ← item.expand
    match e.setting, rest with
    | none, rest => take (← a.setFlags e) rest
    | some (s, some value), rest => take (← (← a.setFlags e).setValue s value) rest
    | some (s, none), .word value :: rest => take (← (← a.setFlags e).setValue s value) rest
    | some (_, none), _ => .error .misuse

/-- Reads the arguments of a command line. There has to be an input, and nothing may be left over. -/
def ofList (args : List String) : Except Refusal Arguments := do
  let a ← take {} (← readItems args)
  if a.leftOver ∨ a.value? .input = none then throw .misuse
  return a

end Arguments

end ArrowCircuit.CommandLine
