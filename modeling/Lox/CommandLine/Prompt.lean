import Lox.CommandLine.Outcome
import Lox.Interpreter.Basic

/-!
# The prompt

Without a script the command reads line by line. Each line is a program of its own, all lines are run in one session,
and no error of a program ends it. A line that is a single expression shows its value unless that is `nil`.
-/

namespace Lox.CommandLine.Prompt

/-- What is shown before a line is read. -/
def mark : String := "> "

/-- The byte that ends a line. -/
def newline : UInt8 := 10

/-- The lines of an input behind the bytes already read of the first one, last first. Each line has the byte that ends
it; the last one may be without. -/
def linesFrom (begun : List UInt8) : List UInt8 → List (List UInt8)
  | [] => if begun.isEmpty then [] else [begun.reverse]
  | b :: rest => if b = newline then (b :: begun).reverse :: linesFrom [] rest else linesFrom (b :: begun) rest

/-- The lines of an input. -/
def lines (input : ByteArray) : List (List UInt8) :=
  linesFrom [] input.toList

/-- The text of a line. -/
def decode (line : List UInt8) : Except Outcome String :=
  match String.fromUTF8? ⟨line.toArray⟩ with
  | some text => .ok text
  | none => .error (ioFailure "unable to read from stdin" notText)

/-- A line that can be run: where its run starts, and whether its value is shown. -/
structure Entry where
  start : Config
  echoes : Bool

/-- Reads a line as an entry. -/
def Entry.read (i : Interpreter) (line : String) : Except (List Diagnostic) Entry :=
  match Program.parse line with
  | .error ds => .error ds
  | .ok [.expression e] => .ok ⟨i.startOne (.expression e), true⟩
  | .ok p => .ok ⟨i.start p, false⟩

/-- What is shown after a line has run, besides what it printed. -/
def reply (h : Heap) (echoes : Bool) (result : Except RuntimeError Value) : Transcript :=
  match result with
  | .error e => { errors := runtimeReport e }
  | .ok .nil => {}
  | .ok v => if echoes then { output := h.text v ++ "\n" } else {}

/-- Runs a line. -/
def respond (steps : Nat) (i : Interpreter) (line : String) : Option (Transcript × Interpreter) :=
  match Entry.read i line with
  | .error ds => some ({ errors := Diagnostic.report ds }, i)
  | .ok entry =>
    (i.complete steps entry.start).map fun (result, i) =>
      let (output, i) := i.takeOutput
      ({ output } ++ reply i.state.heap entry.echoes result, i)

/-- Runs the lines still to be read; `t` is what has been written before. -/
def runLines (steps : Nat) (i : Interpreter) (t : Transcript) : List (List UInt8) → Option Outcome
  | [] => some ⟨.success, t ++ { output := mark }⟩
  | line :: rest =>
    let t := t ++ { output := mark }
    match decode line with
    | .error outcome => some { outcome with transcript := t ++ outcome.transcript }
    | .ok text =>
      match respond steps i text with
      | none => none
      | some (u, i) => runLines steps i (t ++ u) rest

/-- Runs an input in a session of its own. -/
def run (steps : Nat) (settings : Settings) (input : ByteArray) : Option Outcome :=
  runLines steps (.fresh settings) {} (lines input)

end Lox.CommandLine.Prompt
