import Lox.CommandLine.Script
import Lox.CommandLine.Prompt

/-!
# The command

From arguments and environment to an outcome: a script is run, or the lines of an input, or the command says what it is.
-/

namespace Lox.CommandLine

/-- The name and the version of the command. -/
def versionText : String := "treelox 0.1.0\n"

/-- How the command is called. -/
def usageText : String := "Usage: treelox [OPTIONS] [SCRIPT]\n"

/-- An option in the help: how it is written, what it is for, and where its number comes from otherwise. -/
def NumberOption.help (environment : String → Option String) (o : NumberOption) : String :=
  let purpose := match o with
    | maxCallDepth => "Maximum number of nested calls before the run fails with a stack overflow"
    | stackSize => "Stack size in MiB of the thread the interpreter runs on"
  "      " ++ o.usage ++ "\n          " ++ purpose ++ " [env: " ++ o.variableName ++ "="
    ++ (environment o.variableName).getD "" ++ "] [default: " ++ toString o.fallback ++ "]\n"

/-- The help. -/
def helpText (environment : String → Option String) : String :=
  "A tree-walking interpreter for a small Lox-style language with closures and classes\n\n" ++ usageText
    ++ "\nArguments:\n  [SCRIPT]  Script to run, starts a REPL when omitted\n\nOptions:\n"
    ++ NumberOption.maxCallDepth.help environment ++ NumberOption.stackSize.help environment
    ++ "  -h, --help\n          Print help\n  -V, --version\n          Print version\n"

/-- What is written about wrong arguments. -/
def UsageError.report (e : UsageError) : String :=
  let usage := match e with
    | unknownArgument _ => usageText ++ "\n"
    | repeated _ => usageText ++ "\n"
    | needlessValue _ _ => usageText ++ "\n"
    | _ => ""
  "error: " ++ e.message ++ "\n\n" ++ usage ++ "For more information, try '--help'.\n"

/-- The settings of a run. -/
def Options.settings (o : Options) (clock : Nat → Float) : Settings :=
  { maxCallDepth := o.maxCallDepth, clock }

/-- The bytes of the page that guards the end of a stack. -/
def guardSize : Nat := 4096

/-- Why the system gives no stack of so many bytes: together with its guard the size is no number of 64 bits any more,
or the stack is larger than all the memory there is. -/
def stackRefusal? (memory bytes : Nat) : Option SystemError :=
  if maxNumber < bytes + guardSize then some .invalidArgument
  else if memory < bytes then some .unavailable
  else none

/-- The bytes of memory that a line of the system's memory table adds: main memory and swap space count, in units of
1024 bytes. -/
def memoryOfLine (line : String) : Nat :=
  match (line.splitOn " ").filter (· ≠ "") with
  | name :: amount :: _ =>
    if name = "MemTotal:" || name = "SwapTotal:" then (readNumber amount).toOption.getD 0 * 1024 else 0
  | _ => 0

/-- All the memory that the system's memory table tells of, in bytes. -/
def memoryOfTable (table : String) : Nat :=
  (table.splitOn "\n").foldl (fun total line => total + memoryOfLine line) 0

/-- What the command does, as far as the arguments, the environment and the memory decide it. -/
inductive Task where
  | done (outcome : Outcome)
  | script (path : String) (options : Options)
  | prompt (options : Options)

/-- The task that arguments and environment set on a machine with so many bytes of memory. -/
def task (arguments : List String) (environment : String → Option String) (memory : Nat) : Task :=
  match readArguments arguments environment with
  | .error e => .done ⟨.usageError, { errors := e.report }⟩
  | .ok .help => .done ⟨.success, { output := helpText environment }⟩
  | .ok .version => .done ⟨.success, { output := versionText }⟩
  | .ok (.run o) =>
    match stackRefusal? memory o.stackSizeBytes with
    | some e => .done (ioFailure "unable to start the interpreter thread" e.message)
    | none =>
      match o.script with
      | some path => .script path o
      | none => .prompt o

/-- Runs the command. `content` is what reading a file gives, and `input` is what the prompt reads. -/
def run (steps : Nat) (arguments : List String) (environment : String → Option String) (memory : Nat)
    (clock : Nat → Float) (content : String → Except SystemError ByteArray) (input : ByteArray) : Option Outcome :=
  match task arguments environment memory with
  | .done outcome => some outcome
  | .script path o => Script.run steps (o.settings clock) path (content path)
  | .prompt o => Prompt.run steps (o.settings clock) input

end Lox.CommandLine
