import Lox.Value.Basic
import Lox.Heap.Bindings

/-!
# Heaps

The objects of a session, each found by its identity: scopes, sequences, functions, classes, instances and bound
methods. Objects are only ever added. The parent of a scope or class is older than the scope or class itself; so a
walk outwards takes no more steps than the identity it starts from counts, and the walks below are given that many.
-/

namespace Lox

/-- A scope: its own bindings, and the scope around it. -/
structure Scope where
  bindings : Bindings Value := {}
  parent : Option ScopeId := none
deriving Inhabited

/-- A function: its declaration, and the scope in which it was declared. -/
structure Closure where
  declaration : FunDecl
  scope : ScopeId
deriving Inhabited

/-- A class: its name, its parent and its own methods. -/
structure Class where
  name : String
  parent : Option ClassId
  methods : Bindings FunctionId
deriving Inhabited

/-- An instance: its class and its fields. -/
structure Instance where
  ofClass : ClassId
  fields : Bindings Value := {}
deriving Inhabited

/-- A method together with the instance on which it runs. -/
structure BoundMethod where
  receiver : InstanceId
  method : FunctionId

instance : Inhabited BoundMethod := ⟨⟨⟨0⟩, ⟨0⟩⟩⟩

/-- All objects of a session. -/
structure Heap where
  scopes : Array Scope := #[]
  sequences : Array (Array Value) := #[]
  functions : Array Closure := #[]
  classes : Array Class := #[]
  instances : Array Instance := #[]
  boundMethods : Array BoundMethod := #[]
deriving Inhabited

namespace Heap

/-! ## Objects by identity -/

/-- The scope of an identity. -/
def scope (h : Heap) (id : ScopeId) : Scope := h.scopes[id.index]?.getD default

/-- The elements of a sequence. -/
def sequence (h : Heap) (id : SequenceId) : Array Value := h.sequences[id.index]?.getD #[]

/-- The function of an identity. -/
def function (h : Heap) (id : FunctionId) : Closure := h.functions[id.index]?.getD default

/-- The class of an identity. -/
def classOf (h : Heap) (id : ClassId) : Class := h.classes[id.index]?.getD default

/-- The instance of an identity. -/
def instanceOf (h : Heap) (id : InstanceId) : Instance := h.instances[id.index]?.getD default

/-- The bound method of an identity. -/
def boundMethod (h : Heap) (id : BoundMethodId) : BoundMethod := h.boundMethods[id.index]?.getD default

/-! ## New objects -/

/-- Adds a scope without bindings. -/
def newScope (h : Heap) (parent : Option ScopeId) : ScopeId × Heap :=
  (⟨h.scopes.size⟩, { h with scopes := h.scopes.push { parent } })

/-- Adds a sequence. -/
def newSequence (h : Heap) (elements : Array Value) : SequenceId × Heap :=
  (⟨h.sequences.size⟩, { h with sequences := h.sequences.push elements })

/-- Adds a function. -/
def newFunction (h : Heap) (closure : Closure) : FunctionId × Heap :=
  (⟨h.functions.size⟩, { h with functions := h.functions.push closure })

/-- Adds a class. -/
def newClass (h : Heap) (c : Class) : ClassId × Heap :=
  (⟨h.classes.size⟩, { h with classes := h.classes.push c })

/-- Adds an instance without fields. -/
def newInstance (h : Heap) (c : ClassId) : InstanceId × Heap :=
  (⟨h.instances.size⟩, { h with instances := h.instances.push { ofClass := c } })

/-- Adds a bound method. -/
def newBoundMethod (h : Heap) (receiver : InstanceId) (method : FunctionId) : BoundMethodId × Heap :=
  (⟨h.boundMethods.size⟩, { h with boundMethods := h.boundMethods.push ⟨receiver, method⟩ })

/-! ## Scopes -/

/-- Binds a name in a scope, in place of what the scope bound it to before. -/
def define (h : Heap) (id : ScopeId) (name : String) (value : Value) : Heap :=
  { h with scopes := h.scopes.modify id.index fun s => { s with bindings := s.bindings.insert name value } }

/-- Whether a scope itself binds a name. -/
def bindsLocally (h : Heap) (id : ScopeId) (name : String) : Bool :=
  (h.scope id).bindings.contains name

/-- The nearest scope that binds a name, and what it binds it to, on a walk outwards of at most so many scopes. -/
def locateWithin (h : Heap) (name : String) : Nat → ScopeId → Option (ScopeId × Value)
  | 0, _ => none
  | n + 1, id =>
    match (h.scope id).bindings.find? name with
    | some value => some (id, value)
    | none =>
      match (h.scope id).parent with
      | some parent => h.locateWithin name n parent
      | none => none

/-- The nearest scope outwards from a scope that binds a name, and what it binds it to. -/
def locate? (h : Heap) (id : ScopeId) (name : String) : Option (ScopeId × Value) :=
  h.locateWithin name (id.index + 1) id

/-- What a name is bound to in a scope or around it. -/
def lookup? (h : Heap) (id : ScopeId) (name : String) : Option Value :=
  (h.locate? id name).map Prod.snd

/-- Binds a name anew in the nearest scope that binds it. A name that is bound nowhere is not bound. -/
def assign? (h : Heap) (id : ScopeId) (name : String) (value : Value) : Option Heap :=
  (h.locate? id name).map fun found => h.define found.1 name value

/-! ## Sequences -/

/-- Replaces one element of a sequence. -/
def setElement (h : Heap) (id : SequenceId) (slot : Nat) (value : Value) : Heap :=
  { h with sequences := h.sequences.modify id.index fun xs => xs.setIfInBounds slot value }

/-! ## Classes and instances -/

/-- The nearest method of a name on a walk of at most so many classes from a class to its ancestors. -/
def findMethodWithin (h : Heap) (name : String) : Nat → ClassId → Option FunctionId
  | 0, _ => none
  | n + 1, id =>
    match (h.classOf id).methods.find? name with
    | some method => some method
    | none =>
      match (h.classOf id).parent with
      | some parent => h.findMethodWithin name n parent
      | none => none

/-- The method that a class has under a name, its own or else that of its nearest ancestor. -/
def findMethod? (h : Heap) (id : ClassId) (name : String) : Option FunctionId :=
  h.findMethodWithin name (id.index + 1) id

/-- A class and its ancestors, nearest first, at most so many. -/
def ancestryWithin (h : Heap) : Nat → ClassId → List ClassId
  | 0, _ => []
  | n + 1, id =>
    id :: match (h.classOf id).parent with
      | some parent => h.ancestryWithin n parent
      | none => []

/-- A class and its ancestors, nearest first. -/
def ancestry (h : Heap) (id : ClassId) : List ClassId :=
  h.ancestryWithin (id.index + 1) id

/-- Stores a field of an instance. -/
def setField (h : Heap) (id : InstanceId) (name : String) (value : Value) : Heap :=
  { h with instances := h.instances.modify id.index fun o => { o with fields := o.fields.insert name value } }

/-- What an instance has under a name. -/
inductive Property where
  | field (value : Value)
  | method (id : FunctionId)
  | missing
deriving Repr

/-- Looks a property up: the fields come first, then the methods of the class. -/
def property (h : Heap) (id : InstanceId) (name : String) : Property :=
  match (h.instanceOf id).fields.find? name with
  | some value => .field value
  | none =>
    match h.findMethod? (h.instanceOf id).ofClass name with
    | some method => .method method
    | none => .missing

end Heap

/-- The method that a class calls its initializer. -/
def initializerName : String := "init"

/-- The name under which a running method finds its instance. -/
def thisName : String := "this"

/-- The name under which the methods of a class find its parent. -/
def superName : String := "super"

namespace Heap

/-- How many parameters a function has. -/
def functionArity (h : Heap) (id : FunctionId) : Arity :=
  .fixed (h.function id).declaration.parameters.length

/-- How many arguments construct an instance: those of the initializer, or none. -/
def classArity (h : Heap) (id : ClassId) : Arity :=
  match h.findMethod? id initializerName with
  | some init => h.functionArity init
  | none => .fixed 0

/-- The name and the arity of a value that can be called. -/
def callable? (h : Heap) : Value → Option (String × Arity)
  | .function f => some ((h.function f).declaration.name, h.functionArity f)
  | .boundMethod b =>
    let method := (h.boundMethod b).method
    some ((h.function method).declaration.name, h.functionArity method)
  | .builtin b => some (b.name, b.arity)
  | .classObject c => some ((h.classOf c).name, h.classArity c)
  | _ => none

end Heap

end Lox
