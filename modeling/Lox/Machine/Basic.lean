import Lox.Heap.Builtin

/-!
# The machine's configurations

A program is run by a machine whose configuration has three parts: the focus, which is the expression or statement to
be dealt with or the outcome of the last one; the frames, which say what is to be done with that outcome, innermost
first; and the state, which is everything that outlives a statement. The depth of nested calls of a program is a
matter of frames and never of the stack of the host.
-/

namespace Lox

/-- What stays the same while programs run: the most nested calls, and what the clock shows at each reading. -/
structure Settings where
  maxCallDepth : Nat
  clock : Nat → Float

/-- The most nested calls unless told otherwise. -/
def defaultMaxCallDepth : Nat := 10000

/-- A clock that starts at a time and gains a microsecond with every reading, so that no reading is before an earlier
one. -/
def tickingClock (start : Float) (readings : Nat) : Float :=
  start + Float.ofNat readings / 1000000.0

/-- What programs work on: the objects, the scope in which statements run, the number of nested calls, what has been
printed, how often the clock was read, and whether the printer refuses a line behind what has been printed. -/
structure State where
  heap : Heap
  scope : ScopeId
  depth : Nat := 0
  output : String := ""
  readings : Nat := 0
  refusal? : String → Option SystemError := fun _ => none

/-- How an expression or a statement ends. A statement that runs to its end has the value `nil`. -/
inductive Completion where
  | value (v : Value)
  | error (e : RuntimeError)
  | returned (v : Value)
  | broke

/-- The completion with a value or an error. -/
def Completion.ofExcept : Except RuntimeError Value → Completion
  | .ok v => .value v
  | .error e => .error e

/-- What a completion means where no function and no loop is left to absorb it. -/
def Completion.result : Completion → Except RuntimeError Value
  | value v => .ok v
  | error e => .error e
  | returned _ => .error .returnOutsideFunction
  | broke => .error .invalidBreak

/-- What the machine looks at. -/
inductive Focus where
  | evaluate (e : Expr)
  | execute (s : Stmt)
  | deliver (c : Completion)

/-- What a list of expressions is evaluated for. -/
inductive Gathering where
  | elements
  | arguments (callee : Value)

/-- What is to be done with a value. -/
inductive Frame where
  /-- The test of a ternary: evaluate the one branch or the other. -/
  | choice (ifTrue ifFalse : Expr)
  /-- The left operand: evaluate the right one. -/
  | leftOperand (op : BinaryOp) (right : Expr)
  /-- The right operand: apply the operator. -/
  | rightOperand (left : Value) (op : BinaryOp)
  /-- The operand of a prefix sign. -/
  | operand (op : UnaryOp)
  /-- The left operand of a connective: it decides, or the right one does. -/
  | connective (op : LogicalOp) (right : Expr)
  /-- What is called: evaluate the arguments. -/
  | callee (arguments : List Expr)
  /-- One of several expressions; those done are kept last first. -/
  | gather (purpose : Gathering) (done : List Value) (todo : List Expr)
  /-- The value of an assignment. -/
  | assign (target : String)
  /-- The object of a property that is read. -/
  | propertyOwner (property : String)
  /-- The object of a field that is written: evaluate the value. -/
  | fieldOwner (property : String) (value : Expr)
  /-- The value of a field. -/
  | fieldValue (owner : InstanceId) (property : String)
  /-- The sequence that is read: evaluate the position. -/
  | elementOwner (position : Expr)
  /-- The position that is read. -/
  | elementPosition (sequence : SequenceId)
  /-- The sequence that is written: evaluate the position. -/
  | updateOwner (position value : Expr)
  /-- The position that is written: evaluate the value. -/
  | updatePosition (sequence : SequenceId) (value : Expr)
  /-- The value that is written. -/
  | updateValue (sequence : SequenceId) (position : Value)
  /-- The first value of a variable. -/
  | define (name : String)
  /-- The value of an expression statement. -/
  | discard
  /-- The value to print. -/
  | print
  /-- The test of a conditional. -/
  | branch (thenBranch : Stmt) (elseBranch : Option Stmt)
  /-- The test of a loop. -/
  | loopTest (test : Expr) (body : Stmt)
  /-- The body of a loop. -/
  | loopBody (test : Expr) (body : Stmt)
  /-- The value to return. -/
  | returning
  /-- A statement of several: run the others. -/
  | statements (rest : List Stmt)
  /-- The end of a block: back to the scope around it. -/
  | leaveBlock (outer : ScopeId)
  /-- The end of a function: back to the scope of the caller, with what is returned. -/
  | leaveFunction (outer : ScopeId)
  /-- The end of an initializer: the value is the new instance. -/
  | construct (id : InstanceId)
  /-- The end of a call: one nested call fewer. -/
  | leaveCall

/-- A configuration of the machine. -/
structure Config where
  focus : Focus
  frames : List Frame
  state : State

namespace Config

/-- The outcome of a configuration in which nothing is left to do. -/
def final? (c : Config) : Option (Completion × State) :=
  match c.focus, c.frames with
  | .deliver completion, [] => some (completion, c.state)
  | _, _ => none

end Config

end Lox
