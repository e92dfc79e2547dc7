import Lox.Proofs.Heap.Growth

/-!
# The class that encloses the running code

The machine does not know in which class the code stands that it runs. A nesting keeps account of it beside the machine
(`Nesting.after`): a declaration is put on record with the place of the code that makes it; where a function is entered,
the place is that of its declaration or, for a method, its class and the instance on which it runs; where the function
is left, the place is that of the caller again. `Pinned` says that a configuration agrees with its nesting.
-/

namespace Lox

/-- Where code stands in a function that was declared somewhere and runs on an instance or on none. -/
def Origin.home (receiver : Option InstanceId) : Origin → Home
  | code home => home
  | method c => receiver.map fun o => (c, o)

/-- The function that is entered where a value is run, and the instance on which it runs. The instance of a class is
the next one. -/
def Heap.entered? (h : Heap) : Value → Option (FunctionId × Option InstanceId)
  | .function f => some (f, none)
  | .boundMethod b => some ((h.boundMethod b).method, some (h.boundMethod b).receiver)
  | .classObject c => (h.findMethod? c initializerName).map fun f => (f, some ⟨h.instances.size⟩)
  | _ => none

/-- What is on record, where the running code stands, and where the callers of its function and of those around it
stand, innermost first. -/
structure Nesting where
  declarations : Declarations := {}
  home : Home := none
  callers : List Home := []

namespace Nesting

/-- The nesting in a function that is entered. -/
def enter (n : Nesting) (f : FunctionId) (receiver : Option InstanceId) : Nesting :=
  { n with home := (n.declarations.origin f).home receiver, callers := n.home :: n.callers }

/-- The nesting when a function has been left. -/
def leave (n : Nesting) : Nesting :=
  match n.callers with
  | [] => n
  | caller :: others => { n with home := caller, callers := others }

/-- The nesting when a value is run. -/
def invoked (n : Nesting) (callee : Value) (s : State) : Nesting :=
  match s.heap.entered? callee with
  | some (f, receiver) => n.enter f receiver
  | none => n

/-- The nesting when a value is called. -/
def applied (settings : Settings) (n : Nesting) (callee : Value) (arguments : List Value) (s : State) : Nesting :=
  match s.heap.callable? callee with
  | none => n
  | some (_, arity) =>
    if !arity.accepts arguments.length then n
    else if settings.maxCallDepth ≤ s.depth then n
    else n.invoked callee s

/-- The nesting when some of several expressions have been evaluated. -/
def gathered (settings : Settings) (n : Nesting) (purpose : Gathering) (done : List Value) (todo : List Expr)
    (s : State) : Nesting :=
  match todo, purpose with
  | [], .arguments callee => n.applied settings callee done.reverse s
  | _, _ => n

/-- The nesting when a statement is begun. -/
def executed (n : Nesting) (st : Stmt) (s : State) : Nesting :=
  match st with
  | .funDecl _ => { n with declarations := n.declarations.withFunction s.heap n.home }
  | .classDecl _ none _ => { n with declarations := n.declarations.withClass s.heap .nil }
  | .classDecl _ (some parent) _ =>
    match s.heap.lookup? s.scope parent with
    | some (.classObject c) => { n with declarations := n.declarations.withClass s.heap (.classObject c) }
    | _ => n
  | _ => n

/-- The nesting when the innermost frame has taken a value. -/
def resumed (settings : Settings) (n : Nesting) (frame : Frame) (v : Value) (s : State) : Nesting :=
  match frame with
  | .callee arguments => n.gathered settings (.arguments v) [] arguments s
  | .gather purpose done todo => n.gathered settings purpose (v :: done) todo s
  | .leaveFunction _ => n.leave
  | _ => n

/-- The nesting when the innermost frame has taken another completion. -/
def unwound (n : Nesting) (frame : Frame) : Nesting :=
  match frame with
  | .leaveFunction _ => n.leave
  | _ => n

/-- The nesting after a step. -/
def after (settings : Settings) (n : Nesting) : Config → Nesting
  | ⟨.evaluate _, _, _⟩ => n
  | ⟨.execute st, _, s⟩ => n.executed st s
  | ⟨.deliver _, [], _⟩ => n
  | ⟨.deliver (.value v), frame :: _, s⟩ => n.resumed settings frame v s
  | ⟨.deliver _, frame :: _, _⟩ => n.unwound frame

end Nesting

variable {n : Nesting} {r r' : Declarations} {h h' : Heap} {s : State} {frames : List Frame} {frame : Frame} {v : Value}

/-! ## Sound frames -/

/-- What several expressions are evaluated for holds plain values. -/
def Gathering.IsSound (r : Declarations) (h : Heap) : Gathering → Prop
  | elements => True
  | arguments callee => callee.IsPlain r h

/-- The code of a frame binds neither `this` nor `super`, and its values are plain. The frames that lead to another
scope are left out. -/
def Frame.IsSound (r : Declarations) (h : Heap) : Frame → Prop
  | choice ifTrue ifFalse => ifTrue.BindsOnly Bindable ∧ ifFalse.BindsOnly Bindable
  | leftOperand _ right => right.BindsOnly Bindable
  | connective _ right => right.BindsOnly Bindable
  | callee arguments => Expr.AllBindOnly Bindable arguments
  | gather purpose done todo =>
    purpose.IsSound r h ∧ (∀ v ∈ done, v.IsPlain r h) ∧ Expr.AllBindOnly Bindable todo
  | assign target => Bindable target
  | fieldOwner _ value => value.BindsOnly Bindable
  | elementOwner position => position.BindsOnly Bindable
  | updateOwner position value => position.BindsOnly Bindable ∧ value.BindsOnly Bindable
  | updatePosition _ value => value.BindsOnly Bindable
  | define name => Bindable name
  | branch thenBranch elseBranch =>
    thenBranch.BindsOnly Bindable ∧ ∀ other, elseBranch = some other → other.BindsOnly Bindable
  | loopTest test body => test.BindsOnly Bindable ∧ body.BindsOnly Bindable
  | loopBody test body => test.BindsOnly Bindable ∧ body.BindsOnly Bindable
  | statements rest => Stmt.AllBindOnly Bindable rest
  | leaveBlock _ => False
  | leaveFunction _ => False
  | _ => True

/-- A value that is delivered is plain. -/
def Completion.IsSound (r : Declarations) (h : Heap) : Completion → Prop
  | value v => v.IsPlain r h
  | returned v => v.IsPlain r h
  | _ => True

/-- The code in focus binds neither `this` nor `super`, and a value in focus is plain. -/
def Focus.IsSound (r : Declarations) (h : Heap) : Focus → Prop
  | evaluate e => e.BindsOnly Bindable
  | execute st => st.BindsOnly Bindable
  | deliver c => c.IsSound r h

/-- The frames lead back from code that stands somewhere through its callers: the scope to which a block or a function
leads back sees what the code there stands for. -/
inductive Framed (r : Declarations) (h : Heap) : Home → List Home → List Frame → Prop
  | nil : Framed r h none [] []
  | leaveBlock {home : Home} {callers : List Home} {frames : List Frame} {outer : ScopeId}
      (houter : h.Sees r outer home) (hrest : Framed r h home callers frames) :
      Framed r h home callers (.leaveBlock outer :: frames)
  | leaveFunction {home caller : Home} {callers : List Home} {frames : List Frame} {outer : ScopeId}
      (houter : h.Sees r outer caller) (hrest : Framed r h caller callers frames) :
      Framed r h home (caller :: callers) (.leaveFunction outer :: frames)
  | other {home : Home} {callers : List Home} {frames : List Frame} {frame : Frame}
      (hframe : frame.IsSound r h) (hrest : Framed r h home callers frames) :
      Framed r h home callers (frame :: frames)

/-- The state and the frames agree with a nesting. -/
structure Stands (n : Nesting) (frames : List Frame) (s : State) : Prop where
  sound : s.heap.Sound n.declarations
  sees : s.heap.Sees n.declarations s.scope n.home
  framed : Framed n.declarations s.heap n.home n.callers frames

/-- A configuration agrees with a nesting. -/
structure Pinned (n : Nesting) (c : Config) : Prop where
  stands : Stands n c.frames c.state
  focus : c.focus.IsSound n.declarations c.state.heap

/-- A configuration agrees with its nesting, and its heap extends an earlier one. -/
structure Continues (n : Nesting) (h : Heap) (n' : Nesting) (c : Config) : Prop where
  pinned : Pinned n' c
  grown : h.Extends n.declarations n'.declarations c.state.heap

/-! ## Growth -/

/-- A frame stays sound. -/
theorem Frame.IsSound.extend (hframe : frame.IsSound r h) (he : h.Extends r r' h') : frame.IsSound r' h' := by
  cases frame with
  | gather purpose done todo =>
    obtain ⟨hpurpose, hdone, htodo⟩ := hframe
    refine ⟨?_, fun v hv => (hdone v hv).extend he, htodo⟩
    cases purpose with
    | elements => trivial
    | arguments callee => exact Value.IsPlain.extend hpurpose he
  | _ => exact hframe

/-- The frames go on leading back as they did. -/
theorem Framed.extend {home : Home} {callers : List Home} (hframed : Framed r h home callers frames)
    (he : h.Extends r r' h') : Framed r' h' home callers frames := by
  induction hframed with
  | nil => exact .nil
  | leaveBlock houter _ ih => exact .leaveBlock (houter.extend he) ih
  | leaveFunction houter _ ih => exact .leaveFunction (houter.extend he) ih
  | other hframe _ ih => exact .other (hframe.extend he) ih

end Lox
