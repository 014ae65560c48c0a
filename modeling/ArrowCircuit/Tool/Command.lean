import ArrowCircuit.Files.Tree
import ArrowCircuit.Wording

/-!
# Command-line tools

A tool is called with arguments in a working directory, and succeeds with its output or fails. A
verifier that fails may say by its output that the proof is wrong.
-/

namespace ArrowCircuit.Tool

/-- A call of a tool. -/
structure Call where
  binary : String
  arguments : List String
  workingDirectory : Option Path := none
  deriving DecidableEq, Repr

/-- The command line of a call. -/
def Call.command (c : Call) : List String := c.binary :: c.arguments

/-- What a tool has printed, and its exit code. -/
structure Result where
  command : List String
  stdout : String
  stderr : String
  exitCode : Int
  deriving DecidableEq, Repr

/-- A failed call. -/
structure Failure where
  message : String
  command : List String := []
  exitCode : Option Int := none
  stderr : String := ""
  deriving DecidableEq, Repr

namespace Failure

/-- The tool that failed. -/
def engine (f : Failure) : Option String := f.command.head?

/-- The message, with the tool before it. -/
def text (f : Failure) : String := Wording.attributed f.engine f.message

/-- A binary that is not installed. -/
def notFound (c : Call) : Failure :=
  { message := "Binary not found: " ++ c.binary ++ ". Ensure it is installed and in PATH.",
    command := c.command }

/-- A call that took too long; the limit is given as it is shown. -/
def timedOut (c : Call) (limit : String) : Failure :=
  { message := "Command timed out after " ++ limit ++ "s: " ++ " ".intercalate c.command,
    command := c.command }

/-- A call that ended with an exit code other than zero, with what it printed. -/
def failed (c : Call) (exitCode : Int) (stdout stderr : String) : Failure :=
  let shown := Text.toStr (Text.strip (Text.ofString (if stderr.isEmpty then stdout else stderr)))
  { message := "Command failed with exit code " ++ Numeral.decimal exitCode ++ ": " ++
      " ".intercalate c.command ++ "\n" ++ shown,
    command := c.command, exitCode := some exitCode, stderr }

/-- The phrases by which a verifier says that a proof is wrong. -/
def rejectionPhrases : List String := ["verification failed", "invalid proof", "proof is invalid"]

/-- Whether a text has a phrase somewhere. -/
def hasPhrase (phrase : Text) : Text → Bool
  | [] => phrase.isEmpty
  | c :: rest => phrase.isPrefixOf (c :: rest) || hasPhrase phrase rest

/-- Whether the fault says that a proof is wrong: by what the tool printed, or else by its message. -/
def isRejection (f : Failure) : Bool :=
  let shown := Text.asciiLower (Text.ofString (if f.stderr.isEmpty then f.text else f.stderr))
  rejectionPhrases.any fun phrase => hasPhrase (Text.ofString phrase) shown

end Failure

end ArrowCircuit.Tool
