import Lox.Machine.Basic

/-!
# The machine's steps

`Config.step` takes a configuration to the next one. It is not recursive: an expression or statement in focus either
completes at once or hands the focus to a part of itself and leaves a frame behind; a value goes to the innermost
frame; an error, a return or a break passes outwards through the frames until one of them absorbs it. Scope and depth
are set back by the frames that were left when they were changed, whichever way a block or call ends. A line that the
printer refuses is not printed, and the `print` ends with an error.
-/

namespace Lox.Config

/-! ## Completions -/

/-- A value for the frames. -/
def yield (v : Value) (frames : List Frame) (s : State) : Config :=
  ⟨.deliver (.value v), frames, s⟩

/-- An error for the frames. -/
def raise (e : RuntimeError) (frames : List Frame) (s : State) : Config :=
  ⟨.deliver (.error e), frames, s⟩

/-- A value or an error for the frames. -/
def settle (r : Except RuntimeError Value) (frames : List Frame) (s : State) : Config :=
  ⟨.deliver (.ofExcept r), frames, s⟩

/-! ## Calls -/

/-- Binds parameters to arguments, one by one as long as there are both. -/
def bindParameters (h : Heap) (scope : ScopeId) : List String → List Value → Heap
  | name :: names, v :: values => bindParameters (h.define scope name v) scope names values
  | _, _ => h

/-- Enters a function: its body runs in a new scope inside the one of its declaration, in which first `this` is bound
if there is a receiver, and then the parameters. -/
def enter (f : FunctionId) (receiver : Option InstanceId) (arguments : List Value) (frames : List Frame)
    (s : State) : Config :=
  let closure := s.heap.function f
  let outer := s.scope
  let (scope, heap) := s.heap.newScope (some closure.scope)
  let heap := match receiver with
    | some o => heap.define scope thisName (.instanceObject o)
    | none => heap
  let heap := bindParameters heap scope closure.declaration.parameters arguments
  ⟨.deliver (.value .nil), .statements closure.declaration.body :: .leaveFunction outer :: frames,
    { s with heap, scope }⟩

/-- Runs what can be called, without a look at the number of arguments or the depth of calls. -/
def invoke (settings : Settings) (callee : Value) (arguments : List Value) (frames : List Frame) (s : State) :
    Config :=
  match callee with
  | .function f => enter f none arguments frames s
  | .boundMethod b =>
    let bound := s.heap.boundMethod b
    enter bound.method (some bound.receiver) arguments frames s
  | .builtin b =>
    match b.run (settings.clock s.readings) arguments s.heap with
    | .ok (.value v) => yield v frames { s with readings := if b = .now then s.readings + 1 else s.readings }
    | .ok (.elements xs) =>
      let (id, heap) := s.heap.newSequence xs
      yield (.sequence id) frames { s with heap }
    | .error e => raise e frames s
  | .classObject c =>
    let (o, heap) := s.heap.newInstance c
    let s := { s with heap }
    match s.heap.findMethod? c initializerName with
    | some init => enter init (some o) arguments (.construct o :: frames) s
    | none => yield (.instanceObject o) frames s
  | v => raise (.notCallable (s.heap.text v)) frames s

/-- Calls a value. It has to be callable, the number of arguments has to be right, and one more call has to be
allowed; these are looked at in this order, before anything is run. -/
def apply (settings : Settings) (callee : Value) (arguments : List Value) (frames : List Frame) (s : State) :
    Config :=
  match s.heap.callable? callee with
  | none => raise (.notCallable (s.heap.text callee)) frames s
  | some (name, arity) =>
    if !arity.accepts arguments.length then raise (.arity name arity arguments.length) frames s
    else if settings.maxCallDepth ≤ s.depth then raise (.stackOverflow settings.maxCallDepth) frames s
    else invoke settings callee arguments (.leaveCall :: frames) { s with depth := s.depth + 1 }

/-- Evaluates what is left of several expressions, and then makes of their values what they are for. -/
def gather (settings : Settings) (purpose : Gathering) (done : List Value) (todo : List Expr)
    (frames : List Frame) (s : State) : Config :=
  match todo with
  | e :: rest => ⟨.evaluate e, .gather purpose done rest :: frames, s⟩
  | [] =>
    match purpose with
    | .elements =>
      let (id, heap) := s.heap.newSequence done.reverse.toArray
      yield (.sequence id) frames { s with heap }
    | .arguments callee => apply settings callee done.reverse frames s

/-! ## Names, properties and classes -/

/-- Looks a name up. -/
def lookup (name : String) (frames : List Frame) (s : State) : Config :=
  match s.heap.lookup? s.scope name with
  | some v => yield v frames s
  | none => raise (.unresolvedName name) frames s

/-- Binds a method to an instance. -/
def bindMethod (receiver : InstanceId) (method : FunctionId) (frames : List Frame) (s : State) : Config :=
  let (b, heap) := s.heap.newBoundMethod receiver method
  yield (.boundMethod b) frames { s with heap }

/-- Reads a property: a field as it was stored, a method bound to the instance. -/
def readProperty (o : InstanceId) (name : String) (frames : List Frame) (s : State) : Config :=
  match s.heap.property o name with
  | .field v => yield v frames s
  | .method m => bindMethod o m frames s
  | .missing =>
    raise (.unresolvedProperty (.instanceOf (s.heap.classOf (s.heap.instanceOf o).ofClass).name) name) frames s

/-- The class to which `super` refers. A class without a parent binds it to `nil`. -/
def superClass (s : State) : Except RuntimeError ClassId :=
  match s.heap.lookup? s.scope superName with
  | some (.classObject c) => .ok c
  | some .nil => .error (.unresolvedName superName)
  | some v => .error (.type (.superBinding v.kind))
  | none => .error (.unresolvedName superName)

/-- The instance to which `this` refers. -/
def thisInstance (s : State) : Except RuntimeError InstanceId :=
  match s.heap.lookup? s.scope thisName with
  | some (.instanceObject o) => .ok o
  | some v => .error (.type (.thisBinding v.kind))
  | none => .error (.unresolvedName thisName)

/-- Reads a method of the parent class, bound to the running method's instance. -/
def readSuper (name : String) (frames : List Frame) (s : State) : Config :=
  match superClass s with
  | .error e => raise e frames s
  | .ok c =>
    match thisInstance s with
    | .error e => raise e frames s
    | .ok o =>
      match s.heap.findMethod? c name with
      | some m => bindMethod o m frames s
      | none => raise (.unresolvedProperty (.superclass (s.heap.classOf c).name) name) frames s

/-- Adds functions for the methods of a class, all declared in one scope. -/
def declareMethods (h : Heap) (scope : ScopeId) : List FunDecl → List (String × FunctionId) × Heap
  | [] => ([], h)
  | d :: rest =>
    let (f, h) := h.newFunction ⟨d, scope⟩
    let (others, h) := declareMethods h scope rest
    ((d.name, f) :: others, h)

/-- Declares a class. Its methods close over a scope of their own that binds `super` to the parent, or to `nil` if
there is none, whatever the names around it come to mean later. -/
def declareClass (name : String) (parent : Option ClassId) (methods : List FunDecl) (frames : List Frame)
    (s : State) : Config :=
  let (scope, heap) := s.heap.newScope (some s.scope)
  let heap := heap.define scope superName (match parent with | some c => .classObject c | none => .nil)
  let (table, heap) := declareMethods heap scope methods
  let (c, heap) := heap.newClass ⟨name, parent, .ofList table⟩
  let heap := heap.define s.scope name (.classObject c)
  yield .nil frames { s with heap }

/-! ## Expressions and statements -/

/-- Begins an expression. -/
def evaluate (settings : Settings) (e : Expr) (frames : List Frame) (s : State) : Config :=
  match e with
  | .literal l => yield l.value frames s
  | .group inner => ⟨.evaluate inner, frames, s⟩
  | .unary op operand => ⟨.evaluate operand, .operand op :: frames, s⟩
  | .binary left op right => ⟨.evaluate left, .leftOperand op right :: frames, s⟩
  | .logical left op right => ⟨.evaluate left, .connective op right :: frames, s⟩
  | .ternary test ifTrue ifFalse => ⟨.evaluate test, .choice ifTrue ifFalse :: frames, s⟩
  | .list items => gather settings .elements [] items frames s
  | .variable name => lookup name frames s
  | .this => lookup thisName frames s
  | .super method => readSuper method frames s
  | .assign target value => ⟨.evaluate value, .assign target :: frames, s⟩
  | .call callee arguments => ⟨.evaluate callee, .callee arguments :: frames, s⟩
  | .get object property => ⟨.evaluate object, .propertyOwner property :: frames, s⟩
  | .set object property value => ⟨.evaluate object, .fieldOwner property value :: frames, s⟩
  | .index object position => ⟨.evaluate object, .elementOwner position :: frames, s⟩
  | .setIndex object position value => ⟨.evaluate object, .updateOwner position value :: frames, s⟩

/-- Begins a statement. -/
def execute (st : Stmt) (frames : List Frame) (s : State) : Config :=
  match st with
  | .varDecl name none => yield .nil frames { s with heap := s.heap.define s.scope name .nil }
  | .varDecl name (some init) => ⟨.evaluate init, .define name :: frames, s⟩
  | .funDecl d =>
    let (f, heap) := s.heap.newFunction ⟨d, s.scope⟩
    yield .nil frames { s with heap := heap.define s.scope d.name (.function f) }
  | .classDecl name none methods => declareClass name none methods frames s
  | .classDecl name (some parent) methods =>
    match s.heap.lookup? s.scope parent with
    | some (.classObject c) => declareClass name (some c) methods frames s
    | some v => raise (.type (.superclass name v.kind)) frames s
    | none => raise (.unresolvedName parent) frames s
  | .expression e => ⟨.evaluate e, .discard :: frames, s⟩
  | .print e => ⟨.evaluate e, .print :: frames, s⟩
  | .block body =>
    let outer := s.scope
    let (scope, heap) := s.heap.newScope (some outer)
    ⟨.deliver (.value .nil), .statements body :: .leaveBlock outer :: frames, { s with heap, scope }⟩
  | .conditional test thenBranch elseBranch => ⟨.evaluate test, .branch thenBranch elseBranch :: frames, s⟩
  | .loop test body => ⟨.evaluate test, .loopTest test body :: frames, s⟩
  | .breakLoop => ⟨.deliver .broke, frames, s⟩
  | .returnValue none => ⟨.deliver (.returned .nil), frames, s⟩
  | .returnValue (some e) => ⟨.evaluate e, .returning :: frames, s⟩

/-! ## Printing -/

/-- The line that waits to be printed. -/
def pending? : Config → Option String
  | ⟨.deliver (.value v), .print :: _, s⟩ => some (s.heap.text v)
  | _ => none

/-- Prints a line, unless the printer refuses it. -/
def printLine (line : String) (frames : List Frame) (s : State) : Config :=
  match s.refusal? s.output with
  | none => yield .nil frames { s with output := s.output ++ line ++ "\n" }
  | some e => raise (.io e) frames s

/-! ## Frames -/

/-- Hands a value to the innermost frame. -/
def resume (settings : Settings) (frame : Frame) (v : Value) (frames : List Frame) (s : State) : Config :=
  match frame with
  | .choice ifTrue ifFalse => ⟨.evaluate (if v.isTruthy then ifTrue else ifFalse), frames, s⟩
  | .leftOperand op right => ⟨.evaluate right, .rightOperand v op :: frames, s⟩
  | .rightOperand left op => settle (s.heap.binary op left v) frames s
  | .operand op => settle (v.unary op) frames s
  | .connective op right => if op.isDecidedBy v then yield v frames s else ⟨.evaluate right, frames, s⟩
  | .callee arguments => gather settings (.arguments v) [] arguments frames s
  | .gather purpose done todo => gather settings purpose (v :: done) todo frames s
  | .assign target =>
    match s.heap.locate? s.scope target with
    | some (scope, _) => yield v frames { s with heap := s.heap.define scope target v }
    | none => raise (.unresolvedName target) frames s
  | .propertyOwner property =>
    match v with
    | .instanceObject o => readProperty o property frames s
    | v => raise (.type (.propertyOf v.kind property)) frames s
  | .fieldOwner property value =>
    match v with
    | .instanceObject o => ⟨.evaluate value, .fieldValue o property :: frames, s⟩
    | v => raise (.type (.fieldOf v.kind property)) frames s
  | .fieldValue o property => yield v frames { s with heap := s.heap.setField o property v }
  | .elementOwner position =>
    match v with
    | .sequence id => ⟨.evaluate position, .elementPosition id :: frames, s⟩
    | v => raise (.type (.elementOf v.kind)) frames s
  | .elementPosition id => settle ((s.heap.slot id v).map fun slot => (s.heap.sequence id)[slot]?.getD .nil) frames s
  | .updateOwner position value =>
    match v with
    | .sequence id => ⟨.evaluate position, .updatePosition id value :: frames, s⟩
    | v => raise (.type (.elementOf v.kind)) frames s
  | .updatePosition id value => ⟨.evaluate value, .updateValue id v :: frames, s⟩
  | .updateValue id position =>
    match s.heap.slot id position with
    | .ok slot => yield v frames { s with heap := s.heap.setElement id slot v }
    | .error e => raise e frames s
  | .define name => yield .nil frames { s with heap := s.heap.define s.scope name v }
  | .discard => yield .nil frames s
  | .print => printLine (s.heap.text v) frames s
  | .branch thenBranch elseBranch =>
    if v.isTruthy then ⟨.execute thenBranch, frames, s⟩
    else match elseBranch with
      | some other => ⟨.execute other, frames, s⟩
      | none => yield .nil frames s
  | .loopTest test body =>
    if v.isTruthy then ⟨.execute body, .loopBody test body :: frames, s⟩ else yield .nil frames s
  | .loopBody test body => ⟨.evaluate test, .loopTest test body :: frames, s⟩
  | .returning => ⟨.deliver (.returned v), frames, s⟩
  | .statements [] => yield .nil frames s
  | .statements (st :: rest) => ⟨.execute st, .statements rest :: frames, s⟩
  | .leaveBlock outer => yield .nil frames { s with scope := outer }
  | .leaveFunction outer => yield .nil frames { s with scope := outer }
  | .construct o => yield (.instanceObject o) frames s
  | .leaveCall => yield v frames { s with depth := s.depth - 1 }

/-- Hands a completion that is no value to the innermost frame. A loop absorbs a break and a function a return; a
break that leaves a function is an error there. -/
def unwind (frame : Frame) (c : Completion) (frames : List Frame) (s : State) : Config :=
  match frame with
  | .loopBody _ _ =>
    match c with
    | .broke => yield .nil frames s
    | c => ⟨.deliver c, frames, s⟩
  | .leaveBlock outer => ⟨.deliver c, frames, { s with scope := outer }⟩
  | .leaveFunction outer =>
    match c with
    | .returned v => yield v frames { s with scope := outer }
    | .broke => raise .invalidBreak frames { s with scope := outer }
    | c => ⟨.deliver c, frames, { s with scope := outer }⟩
  | .leaveCall => ⟨.deliver c, frames, { s with depth := s.depth - 1 }⟩
  | _ => ⟨.deliver c, frames, s⟩

/-- The next configuration. One in which nothing is left to do stays as it is. -/
def step (settings : Settings) : Config → Config
  | ⟨.evaluate e, frames, s⟩ => evaluate settings e frames s
  | ⟨.execute st, frames, s⟩ => execute st frames s
  | ⟨.deliver c, [], s⟩ => ⟨.deliver c, [], s⟩
  | ⟨.deliver (.value v), frame :: frames, s⟩ => resume settings frame v frames s
  | ⟨.deliver c, frame :: frames, s⟩ => unwind frame c frames s

/-- At most so many steps, fewer if nothing is left to do. -/
def advance (settings : Settings) : Nat → Config → Config
  | 0, c => c
  | n + 1, c =>
    match c with
    | ⟨.deliver completion, [], s⟩ => ⟨.deliver completion, [], s⟩
    | c => advance settings n (step settings c)

/-- At most so many steps, fewer if nothing is left to do or a line waits to be printed. -/
def approach (settings : Settings) : Nat → Config → Config
  | 0, c => c
  | n + 1, c => if c.final?.isSome || c.pending?.isSome then c else approach settings n (step settings c)

end Lox.Config
