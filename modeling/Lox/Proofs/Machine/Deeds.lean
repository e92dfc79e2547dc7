import Lox.Proofs.Heap.Deeds
import Lox.Proofs.Machine.Context
import Lox.Proofs.Machine.Pinned

/-!
# The deeds of steps

Which deed a step of the machine is, if any (`deeds`), can be told from the configuration before it: from a value that
is handed to a store, or from the declaration of a class in focus. There is one lemma for each part of a step; together
they say that a step does this deed to the heap, and that all else it does is to add objects and to bind names
(`step_becomes`).
-/

namespace Lox.Config

open Heap (Becomes Gain Does)

variable {frames : List Frame} {s : State} {v : Value}

/-- The deed of the next step: a store at a position that a sequence has, a store into a field, or the declaration of a
class whose parent, if it is to have one, is a class. -/
def deeds (c : Config) : List Deed :=
  match c.focus, c.frames with
  | .deliver (.value v), .updateValue id position :: _ =>
    match c.state.heap.slot id position with
    | .ok slot => [.element id slot v]
    | .error _ => []
  | .deliver (.value v), .fieldValue o name :: _ => [.field o name v]
  | .execute (.classDecl name none methods), _ => [c.state.heap.declaration name none methods]
  | .execute (.classDecl name (some parent) methods), _ =>
    match c.state.heap.lookup? c.state.scope parent with
    | some (.classObject k) => [c.state.heap.declaration name (some k) methods]
    | _ => []
  | _, _ => []

/-! ## Calls -/

/-- Parameters are bound one after another. -/
theorem bindParameters_becomes (scope : ScopeId) : ∀ (names : List String) (values : List Value) (h : Heap),
    h.Becomes [] (bindParameters h scope names values)
  | [], _, _ => .refl
  | _ :: _, [], _ => .refl
  | name :: names, v :: values, h =>
    (Gain.define scope name v).once.trans (bindParameters_becomes scope names values (h.define scope name v))

/-- A function is entered in a new scope, in which names are bound. -/
theorem enter_becomes (f : FunctionId) (receiver : Option InstanceId) (arguments : List Value) :
    s.heap.Becomes [] (enter f receiver arguments frames s).state.heap := by
  have hscope := (Gain.newScope (h := s.heap) (some (s.heap.function f).scope)).once
  cases receiver with
  | none => exact hscope.trans (bindParameters_becomes _ _ _ _)
  | some o =>
    have hthis := hscope.trans (Gain.define ⟨s.heap.scopes.size⟩ thisName (.instanceObject o)).once
    exact hthis.trans (bindParameters_becomes _ _ _ _)

/-- What can be called is run. -/
theorem invoke_becomes (settings : Settings) (callee : Value) (arguments : List Value) :
    s.heap.Becomes [] (invoke settings callee arguments frames s).state.heap := by
  cases callee with
  | function f => exact enter_becomes f none arguments
  | boundMethod b => exact enter_becomes _ _ arguments
  | builtin b =>
    simp only [invoke]
    split
    · exact .refl
    · exact (Gain.newSequence _).once
    · exact .refl
  | classObject c =>
    have hinstance := (Gain.newInstance (h := s.heap) c).once
    simp only [invoke]
    split
    · exact hinstance.trans (enter_becomes (s := { s with heap := (s.heap.newInstance c).2 }) _ _ arguments)
    · exact hinstance
  | _ => exact .refl

/-- A call is made. -/
theorem apply_becomes (settings : Settings) (callee : Value) (arguments : List Value) :
    s.heap.Becomes [] (apply settings callee arguments frames s).state.heap := by
  unfold apply
  split
  · exact .refl
  · split_ifs
    · exact .refl
    · exact .refl
    · exact invoke_becomes (s := { s with depth := s.depth + 1 }) settings callee arguments

/-- Several expressions are gone on with. -/
theorem gather_becomes (settings : Settings) (purpose : Gathering) (done : List Value) (todo : List Expr) :
    s.heap.Becomes [] (gather settings purpose done todo frames s).state.heap := by
  cases todo with
  | cons e rest => exact .refl
  | nil =>
    cases purpose with
    | elements => exact (Gain.newSequence _).once
    | arguments callee => exact apply_becomes settings callee done.reverse

/-! ## Expressions -/

/-- A name is looked up. -/
theorem lookup_becomes (name : String) : s.heap.Becomes [] (lookup name frames s).state.heap := by
  unfold lookup
  split <;> exact .refl

/-- A property is read. -/
theorem readProperty_becomes (o : InstanceId) (name : String) :
    s.heap.Becomes [] (readProperty o name frames s).state.heap := by
  unfold readProperty
  split
  · exact .refl
  · exact (Gain.newBoundMethod _ _).once
  · exact .refl

/-- A method of the parent is read. -/
theorem readSuper_becomes (name : String) : s.heap.Becomes [] (readSuper name frames s).state.heap := by
  unfold readSuper
  split
  · exact .refl
  · split
    · exact .refl
    · split
      · exact (Gain.newBoundMethod _ _).once
      · exact .refl

/-- An expression is begun. -/
theorem evaluate_becomes (settings : Settings) (e : Expr) :
    s.heap.Becomes [] (evaluate settings e frames s).state.heap := by
  cases e with
  | list items => exact gather_becomes settings .elements [] items
  | «variable» name => exact lookup_becomes name
  | this => exact lookup_becomes thisName
  | super method => exact readSuper_becomes method
  | _ => exact .refl

/-! ## Statements -/

/-- A class is declared between its scope and its name. -/
theorem declareClass_becomes (name : String) (parent : Option ClassId) (ds : List FunDecl) :
    s.heap.Becomes [s.heap.declaration name parent ds] (declareClass name parent ds frames s).state.heap := by
  have hscope : s.heap.Becomes [] (s.heap.withSuper s.scope parent) :=
    (Gain.newScope (some s.scope)).once.trans (Gain.define _ superName (parentValue parent)).once
  have hclass : (s.heap.withSuper s.scope parent).Does (s.heap.declaration name parent ds) _ :=
    .declaration ⟨s.heap.scopes.size⟩ name parent ds
  rw [declareClass_eq]
  exact (hscope.deed hclass).gain (.define s.scope name (.classObject ⟨s.heap.classes.size⟩))

/-- A statement is begun. -/
theorem execute_becomes (st : Stmt) :
    s.heap.Becomes (deeds ⟨.execute st, frames, s⟩) (execute st frames s).state.heap := by
  cases st with
  | varDecl name init =>
    cases init with
    | none => exact (Gain.define _ _ _).once
    | some init => exact .refl
  | funDecl d => exact (Gain.newFunction _).once.trans (Gain.define _ _ _).once
  | classDecl name parent ds =>
    cases parent with
    | none => exact declareClass_becomes name none ds
    | some parent =>
      simp only [deeds, execute]
      cases s.heap.lookup? s.scope parent with
      | none => exact .refl
      | some found =>
        cases found with
        | classObject k => exact declareClass_becomes name (some k) ds
        | _ => exact .refl
  | block body => exact (Gain.newScope _).once
  | returnValue value => cases value <;> exact .refl
  | _ => exact .refl

/-! ## Frames -/

/-- The innermost frame takes a value. -/
theorem resume_becomes (settings : Settings) (frame : Frame) :
    s.heap.Becomes (deeds ⟨.deliver (.value v), frame :: frames, s⟩) (resume settings frame v frames s).state.heap := by
  cases frame with
  | callee arguments => exact gather_becomes settings (.arguments v) [] arguments
  | gather purpose done todo => exact gather_becomes settings purpose (v :: done) todo
  | propertyOwner property =>
    cases v with
    | instanceObject o => exact readProperty_becomes o property
    | _ => exact .refl
  | fieldOwner property value => cases v <;> exact .refl
  -- Deeds are done here: a field is stored, a name bound, an element written. The other frames leave the heap alone.
  | fieldValue o property => exact (Does.field _ _ _).once
  | elementOwner position => cases v <;> exact .refl
  | updateOwner position value => cases v <;> exact .refl
  | connective op right =>
    simp only [resume]
    split_ifs <;> exact .refl
  | assign target =>
    simp only [resume]
    split
    · exact (Gain.define _ _ _).once
    · exact .refl
  | updateValue id position =>
    simp only [deeds, resume]
    cases s.heap.slot id position with
    | ok slot => exact (Does.element _ _ _).once
    | error e => exact .refl
  | define name => exact (Gain.define _ _ _).once
  | branch thenBranch elseBranch =>
    simp only [resume]
    split_ifs
    · exact .refl
    · cases elseBranch <;> exact .refl
  | loopTest test body =>
    simp only [resume]
    split_ifs <;> exact .refl
  | print =>
    simp only [resume, printLine]
    split <;> exact .refl
  | statements rest => cases rest <;> exact .refl
  | _ => exact .refl

/-- The innermost frame takes another completion, and the heap stays. -/
theorem unwind_heap (frame : Frame) (completion : Completion) :
    (unwind frame completion frames s).state.heap = s.heap := by
  cases frame with
  | loopBody test body => cases completion <;> rfl
  | leaveFunction outer => cases completion <;> rfl
  | _ => rfl

/-! ## Steps -/

/-- A step does its deed, and otherwise adds objects and binds names. -/
theorem step_becomes (settings : Settings) (c : Config) :
    c.state.heap.Becomes c.deeds (step settings c).state.heap := by
  obtain ⟨focus, frames, s⟩ := c
  cases focus with
  | evaluate e => exact evaluate_becomes settings e
  | execute st => exact execute_becomes st
  | deliver completion =>
    cases frames with
    | nil => cases completion <;> exact .refl
    | cons frame frames =>
      cases completion with
      | value v => exact resume_becomes settings frame
      | error e => exact unwind_heap (s := s) frame (.error e) ▸ .refl
      | returned v => exact unwind_heap (s := s) frame (.returned v) ▸ .refl
      | broke => exact unwind_heap (s := s) frame .broke ▸ .refl

end Lox.Config
