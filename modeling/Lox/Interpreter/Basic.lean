import Lox.Machine.Step
import Lox.Syntax.Statement

/-!
# Interpreters

An interpreter keeps a global scope and a state between programs. Every run is given a number of steps; `none` means
that they did not suffice, and says nothing else about the program.
-/

namespace Lox

/-- Why a text was not run to its end. -/
inductive RunError where
  | parse (diagnostics : List Diagnostic)
  | runtime (error : RuntimeError)

/-- A session: its settings, its global scope, and the state its programs work on. -/
structure Interpreter where
  settings : Settings
  globals : ScopeId
  state : State

/-- Binds every builtin to its name in a scope. -/
def Heap.defineBuiltins (h : Heap) (scope : ScopeId) : Heap :=
  Builtin.all.foldl (fun h b => h.define scope b.name (.builtin b)) h

namespace Interpreter

/-- A session whose global scope is empty. -/
def bare (settings : Settings) : Interpreter :=
  let (globals, heap) := ({} : Heap).newScope none
  { settings, globals, state := { heap, scope := globals } }

/-- A session whose global scope holds the builtins. -/
def fresh (settings : Settings) : Interpreter :=
  let i := bare settings
  { i with state := { i.state with heap := i.state.heap.defineBuiltins i.globals } }

/-! ## Runs -/

/-- Where the run of a program starts. -/
def start (i : Interpreter) (p : Program) : Config :=
  ⟨.deliver (.value .nil), [.statements p], i.state⟩

/-- Where the run of a single statement starts. An expression statement keeps its value. -/
def startOne (i : Interpreter) (st : Stmt) : Config :=
  match st with
  | .expression e => ⟨.evaluate e, [], i.state⟩
  | st => ⟨.execute st, [], i.state⟩

/-- Where a call from outside starts. -/
def startCall (i : Interpreter) (callee : Value) (arguments : List Value) : Config :=
  .apply i.settings callee arguments [] i.state

/-- Where a call from outside starts that is not checked for its arguments and depth. -/
def startInvocation (i : Interpreter) (callee : Value) (arguments : List Value) : Config :=
  .invoke i.settings callee arguments [] i.state

/-- Runs a configuration to its end. -/
def complete (steps : Nat) (i : Interpreter) (c : Config) : Option (Except RuntimeError Value × Interpreter) :=
  (c.advance i.settings steps).final?.map fun (completion, state) => (completion.result, { i with state })

/-- Runs a program, statement by statement up to the first error. -/
def interpret (steps : Nat) (i : Interpreter) (p : Program) : Option (Except RuntimeError Value × Interpreter) :=
  i.complete steps (i.start p)

/-- Runs a single statement. An expression statement answers its value, any other `nil`. -/
def interpretOne (steps : Nat) (i : Interpreter) (st : Stmt) : Option (Except RuntimeError Value × Interpreter) :=
  i.complete steps (i.startOne st)

/-- Runs statements one by one up to the first error, and answers what each answers. -/
def interpretEach (steps : Nat) (i : Interpreter) : Program → Option (List (Except RuntimeError Value) × Interpreter)
  | [] => some ([], i)
  | st :: rest =>
    match i.interpretOne steps st with
    | none => none
    | some (.error e, i) => some ([.error e], i)
    | some (.ok v, i) => (interpretEach steps i rest).map fun (answers, i) => (.ok v :: answers, i)

/-- Reads a text as a program and runs it. Nothing is run if it is no program. -/
def run (steps : Nat) (i : Interpreter) (text : String) : Option (Except RunError Unit × Interpreter) :=
  match Program.parse text with
  | .error diagnostics => some (.error (.parse diagnostics), i)
  | .ok p => (i.interpret steps p).map fun (result, i) => ((result.map fun _ => ()).mapError .runtime, i)

/-- Calls a value. -/
def call (steps : Nat) (i : Interpreter) (callee : Value) (arguments : List Value) :
    Option (Except RuntimeError Value × Interpreter) :=
  i.complete steps (i.startCall callee arguments)

/-- Calls a value without a look at the number of arguments or the depth of calls. -/
def callUnchecked (steps : Nat) (i : Interpreter) (callee : Value) (arguments : List Value) :
    Option (Except RuntimeError Value × Interpreter) :=
  i.complete steps (i.startInvocation callee arguments)

/-! ## The global scope -/

/-- Looks a name up in the global scope. -/
def global (i : Interpreter) (name : String) : Except RuntimeError Value :=
  match i.state.heap.lookup? i.globals name with
  | some v => .ok v
  | none => .error (.unresolvedName name)

/-- The interpreter with another heap. -/
def withHeap (i : Interpreter) (heap : Heap) : Interpreter :=
  { i with state := { i.state with heap } }

/-- Binds a name in the global scope. -/
def define (i : Interpreter) (name : String) (v : Value) : Interpreter :=
  i.withHeap (i.state.heap.define i.globals name v)

/-- Binds a name anew that the global scope binds. -/
def assign (i : Interpreter) (name : String) (v : Value) : Except RuntimeError Interpreter :=
  match i.state.heap.assign? i.globals name v with
  | some heap => .ok (i.withHeap heap)
  | none => .error (.unresolvedName name)

/-- What has been printed, and the interpreter with an empty page. -/
def takeOutput (i : Interpreter) : String × Interpreter :=
  (i.state.output, { i with state := { i.state with output := "" } })

end Interpreter

end Lox
