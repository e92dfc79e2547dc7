import Lox.Interpreter.Basic

/-!
# Data from outside

What a host hands to a session: constants, lists of data, and the values that names have at the moment. A host keeps no
value of its own. What a run has answered is handed back only while a global name holds it, which a program can see to:
`var answer = f(1);` instead of `f(1);`.
-/

namespace Lox

/-- A description of a value. -/
inductive Datum where
  | nil
  | boolean (b : Bool)
  | number (x : Float)
  | string (s : String)
  | list (items : List Datum)
  /-- The value that a name has. -/
  | named (name : String)
deriving Inhabited

namespace Heap

mutual

/-- The value that a datum describes, seen from a scope. Every list becomes a new sequence. -/
def embed (h : Heap) (scope : ScopeId) : Datum → Except RuntimeError (Value × Heap)
  | .nil => .ok (.nil, h)
  | .boolean b => .ok (.boolean b, h)
  | .number x => .ok (.number x, h)
  | .string s => .ok (.string s, h)
  | .named name =>
    match h.lookup? scope name with
    | some v => .ok (v, h)
    | none => .error (.unresolvedName name)
  | .list items =>
    match h.embedAll scope items with
    | .error e => .error e
    | .ok (values, h) =>
      let (id, h) := h.newSequence values.toArray
      .ok (.sequence id, h)

/-- The values that several data describe. -/
def embedAll (h : Heap) (scope : ScopeId) : List Datum → Except RuntimeError (List Value × Heap)
  | [] => .ok ([], h)
  | d :: rest =>
    match h.embed scope d with
    | .error e => .error e
    | .ok (v, h) =>
      match h.embedAll scope rest with
      | .error e => .error e
      | .ok (values, h) => .ok (v :: values, h)

end

end Heap

namespace Interpreter

/-- The value that a datum describes, seen from the global scope. -/
def embed (i : Interpreter) (d : Datum) : Except RuntimeError (Value × Interpreter) :=
  (i.state.heap.embed i.globals d).map fun (v, heap) => (v, i.withHeap heap)

/-- The values that several data describe, seen from the global scope. -/
def embedAll (i : Interpreter) (ds : List Datum) : Except RuntimeError (List Value × Interpreter) :=
  (i.state.heap.embedAll i.globals ds).map fun (values, heap) => (values, i.withHeap heap)

end Interpreter

end Lox
