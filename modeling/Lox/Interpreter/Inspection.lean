import Lox.Interpreter.Basic

/-!
# Inspection

What can be told about a value without running anything.
-/

namespace Lox

/-- A value as it shows: its kind and its texts. -/
structure Appearance where
  kind : Kind
  text : String
  debugText : String

/-- Everything that can be told about a value. -/
structure Inspection where
  appearance : Appearance
  isTruthy : Bool
  /-- The name and the arity of what can be called. -/
  callable : Option (String × Arity)
  /-- The names of a class and its ancestors, also for an instance. -/
  ancestry : Option (List String)
  /-- The parameters of a function. -/
  parameters : Option (List String)
  /-- The name of the class of a bound method's instance. -/
  receiver : Option String

namespace Heap

/-- How a value shows. -/
def appearance (h : Heap) (v : Value) : Appearance :=
  { kind := v.kind, text := h.text v, debugText := h.debugText v }

/-- The class that a value is or belongs to. -/
def classOfValue? (h : Heap) : Value → Option ClassId
  | .classObject c => some c
  | .instanceObject o => some (h.instanceOf o).ofClass
  | _ => none

/-- The names of a class and its ancestors. -/
def ancestryNames (h : Heap) (c : ClassId) : List String :=
  (h.ancestry c).map fun c => (h.classOf c).name

/-- Tells everything about a value. -/
def inspect (h : Heap) (v : Value) : Inspection :=
  { appearance := h.appearance v
    isTruthy := v.isTruthy
    callable := h.callable? v
    ancestry := (h.classOfValue? v).map h.ancestryNames
    parameters := match v with
      | .function f => some (h.function f).declaration.parameters
      | _ => none
    receiver := match v with
      | .boundMethod b => some (h.classOf (h.instanceOf (h.boundMethod b).receiver).ofClass).name
      | _ => none }

end Heap

namespace Interpreter

/-- Reads a property of an instance. -/
def property (i : Interpreter) (o : InstanceId) (name : String) : Except RuntimeError Value × Interpreter :=
  match (Config.readProperty o name [] i.state).final? with
  | some (completion, state) => (completion.result, { i with state })
  | none => (.ok .nil, i)

/-- Stores a field of an instance. -/
def setField (i : Interpreter) (o : InstanceId) (name : String) (v : Value) : Interpreter :=
  i.withHeap (i.state.heap.setField o name v)

end Interpreter

end Lox
