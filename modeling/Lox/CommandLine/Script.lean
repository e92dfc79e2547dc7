import Lox.CommandLine.Outcome
import Lox.Interpreter.Basic

/-!
# Scripts

A script is a file whose text is run as one program in a session of its own.
-/

namespace Lox.CommandLine.Script

/-- The text of a script, from its path and from what reading the file gave. -/
def decode (path : String) (content : Except SystemError ByteArray) : Except Outcome String :=
  match content with
  | .error e => .error (ioFailure ("unable to read script file " ++ path) e.message)
  | .ok bytes =>
    match String.fromUTF8? bytes with
    | some text => .ok text
    | none => .error (ioFailure ("unable to read script file " ++ path) notText)

/-- The program of a script. -/
def load (path : String) (content : Except SystemError ByteArray) : Except Outcome Program :=
  match decode path content with
  | .error outcome => .error outcome
  | .ok text =>
    match Program.parse text with
    | .ok p => .ok p
    | .error ds => .error ⟨.parseError, { errors := Diagnostic.report ds }⟩

/-- The outcome of a script that has run, from its result and from what it printed. -/
def conclude (result : Except RuntimeError Value) (output : String) : Outcome :=
  match result with
  | .ok _ => ⟨.success, { output }⟩
  | .error (.io e) => ⟨.ioError, { output, errors := (RuntimeError.io e).message ++ "\n" }⟩
  | .error e => ⟨.runtimeError, { output, errors := runtimeReport e }⟩

/-- Runs a script. -/
def run (steps : Nat) (settings : Settings) (path : String) (content : Except SystemError ByteArray) :
    Option Outcome :=
  match load path content with
  | .error outcome => some outcome
  | .ok p => ((Interpreter.fresh settings).interpret steps p).map fun (r, i) => conclude r i.state.output

end Lox.CommandLine.Script
