import Lox.CommandLine.Options

/-!
# Outcomes of the command

What the command writes, and the code with which it ends.
-/

namespace Lox.CommandLine

export Lox (SystemError)

/-- How the command ends. -/
inductive Exit where
  | success
  | usageError
  | parseError
  | runtimeError
  | ioError
deriving Repr, DecidableEq

/-- The exit code. -/
def Exit.code : Exit → Nat
  | success => 0
  | usageError => 2
  | parseError => 65
  | runtimeError => 70
  | ioError => 74

/-- What is written, as output and as errors. -/
structure Transcript where
  output : String := ""
  errors : String := ""
deriving Repr, DecidableEq

/-- The one transcript and then the other. -/
def Transcript.append (t u : Transcript) : Transcript :=
  ⟨t.output ++ u.output, t.errors ++ u.errors⟩

instance : Append Transcript := ⟨Transcript.append⟩

/-- What the command wrote and how it ended. -/
structure Outcome where
  exit : Exit
  transcript : Transcript := {}
deriving Repr, DecidableEq

/-- What is said of bytes that are no text. -/
def notText : String := "stream did not contain valid UTF-8"

/-- The outcome of a command that could not read or start something. -/
def ioFailure (activity reason : String) : Outcome :=
  ⟨.ioError, { errors := activity ++ ": " ++ reason ++ "\n" }⟩

/-- The line that reports a runtime error. -/
def runtimeReport (e : RuntimeError) : String :=
  "runtime error: " ++ e.message ++ "\n"

end Lox.CommandLine
