import Std.Time.DateTime.Timestamp
import Lox.CommandLine.Command

/-!
# The program

The outer layer of the command: it reads files, lines, the environment and the clock, and prints what a run prints as
it goes. What is run and what is written is settled in the modules of the command line.
-/

namespace Lox.CommandLine

/-- The seconds since the beginning of 1970. -/
def currentTime : IO Float := do
  let time ← Std.Time.Timestamp.now
  return Float.ofInt time.toNanosecondsSinceUnixEpoch.toInt / 1e9

/-- Prints a text. -/
def write (stream : IO.FS.Stream) (text : String) : IO Unit := do
  unless text.isEmpty do
    stream.putStr text
    stream.flush

/-- Prints a transcript. -/
def writeTranscript (t : Transcript) : IO Unit := do
  write (← IO.getStdout) t.output
  write (← IO.getStderr) t.errors

/-- The refusal that an error of the system tells of. -/
def systemError : IO.Error → SystemError
  | .noFileOrDirectory _ code reason => ⟨code.toNat, reason⟩
  | .inappropriateType _ code reason => ⟨code.toNat, reason⟩
  | .permissionDenied _ code reason => ⟨code.toNat, reason⟩
  | .invalidArgument _ code reason => ⟨code.toNat, reason⟩
  | .resourceExhausted _ code reason => ⟨code.toNat, reason⟩
  | .noSuchThing _ code reason => ⟨code.toNat, reason⟩
  | .otherError code reason => ⟨code.toNat, reason⟩
  | .hardwareFault code reason => ⟨code.toNat, reason⟩
  | .resourceVanished code reason => ⟨code.toNat, reason⟩
  | e => ⟨5, toString e⟩

/-- How many steps are made between two looks at the clock. -/
def stride : Nat := 10000

/-- Prints a line, and answers why if the system refuses it. -/
def printLine (line : String) : IO (Option SystemError) := do
  match ← (write (← IO.getStdout) (line ++ "\n")).toBaseIO with
  | .ok () => return none
  | .error e => return some (systemError e)

/-- Runs a configuration to its end, and prints as it goes. What the printer says to a line is what the system says. -/
partial def drive (settings : Settings) (c : Config) : IO (Completion × State) := do
  let time ← currentTime
  let timed := { settings with clock := fun _ => time }
  let c := c.approach timed stride
  match c.final?, c.pending? with
  | some ended, _ => return ended
  | none, none => drive settings c
  | none, some line =>
    let refusal ← printLine line
    let c := Config.step timed { c with state.refusal? := fun _ => refusal }
    drive settings { c with state.output := "" }

/-- The bytes of a file. -/
def fileContent (path : String) : IO (Except SystemError ByteArray) := do
  match ← (IO.FS.Handle.mk path .read >>= fun file => file.readBinToEnd).toBaseIO with
  | .ok bytes => return .ok bytes
  | .error e => return .error (systemError e)

/-- All the memory of the machine, in bytes. Where the system keeps no table of it, nothing is known to be too much. -/
def machineMemory : IO Nat := do
  match ← fileContent "/proc/meminfo" with
  | .ok bytes => return ((String.fromUTF8? bytes).map memoryOfTable).getD maxNumber
  | .error _ => return maxNumber

/-- Runs a script file. -/
def runScript (path : String) (settings : Settings) : IO Outcome := do
  match Script.load path (← fileContent path) with
  | .error outcome => return outcome
  | .ok p =>
    let (completion, _) ← drive settings ((Interpreter.fresh settings).start p)
    return Script.conclude completion.result ""

/-- The rest of a line, with the byte that ends it; `begun` is what has been read of it, last byte first. -/
partial def readLine (stdin : IO.FS.Stream) (begun : List UInt8) : IO (List UInt8) := do
  match (← stdin.read 1).toList with
  | [] => return begun.reverse
  | b :: _ => if b = Prompt.newline then return (b :: begun).reverse else readLine stdin (b :: begun)

/-- Runs line by line what is typed. -/
partial def runPrompt (stdin : IO.FS.Stream) (i : Interpreter) : IO Outcome := do
  if let .error e ← (writeTranscript { output := Prompt.mark }).toBaseIO then
    return ⟨.ioError, { errors := (systemError e).message ++ "\n" }⟩
  let line ← readLine stdin []
  if line.isEmpty then return ⟨.success, {}⟩
  match Prompt.decode line with
  | .error outcome => return outcome
  | .ok text =>
    match Prompt.Entry.read i text with
    | .error ds =>
      writeTranscript { errors := Diagnostic.report ds }
      runPrompt stdin i
    | .ok entry =>
      let (completion, state) ← drive i.settings entry.start
      writeTranscript (Prompt.reply state.heap entry.echoes completion.result)
      runPrompt stdin { i with state }

/-- The environment, as far as the command looks at it. -/
def readEnvironment : IO (String → Option String) := do
  let maxCallDepth ← IO.getEnv NumberOption.maxCallDepth.variableName
  let stackSize ← IO.getEnv NumberOption.stackSize.variableName
  return fun name =>
    if name = NumberOption.maxCallDepth.variableName then maxCallDepth
    else if name = NumberOption.stackSize.variableName then stackSize
    else none

end Lox.CommandLine

open Lox.CommandLine in
/-- The command. -/
def main (arguments : List String) : IO UInt32 := do
  let clock := fun _ => 0.0
  let outcome ← match task arguments (← readEnvironment) (← machineMemory) with
    | .done outcome => pure outcome
    | .script path o => runScript path (o.settings clock)
    | .prompt o => runPrompt (← IO.getStdin) (.fresh (o.settings clock))
  writeTranscript outcome.transcript
  return UInt32.ofNat outcome.exit.code
