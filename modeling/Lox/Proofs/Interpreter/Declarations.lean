import Lox.Proofs.Interpreter.Session
import Lox.Proofs.Machine.Confined

/-!
# Declarations do not leak

Whatever is run in a state, the scopes that are there bind the same names afterwards, except the current one if a
statement is run that declares names in it. Functions that are called on the way declare in scopes of their own, and an
assignment declares nothing.
-/

namespace Lox

open Config

/-- Running a construct declares names in the current scope. An expression and a call declare none there. -/
def Construct.Declares : Construct → Prop
  | statement st => st.Declares
  | _ => False

namespace Config

/-- A scope that names may be declared in while a construct is run: one that is not there yet, or the current one if the
construct declares names in it. -/
def MayDeclare (x : Construct) (s : State) (t : ScopeId) : Prop :=
  s.heap.scopes.size ≤ t.index ∨ x.Declares ∧ t = s.scope

/-- The run of a construct starts confined. -/
theorem start_confined (settings : Settings) (x : Construct) (s : State) :
    (x.start settings [] s).Confined (MayDeclare x s) s.heap := by
  have hidle : Confined (MayDeclare x s) s.heap ⟨.deliver (.value .nil), [], s⟩ :=
    ⟨not_false.elim, trivial, fun _ ht => .inl ht, .of_eq rfl⟩
  cases x with
  | statement st => exact ⟨fun hst => .inr ⟨hst, rfl⟩, trivial, hidle.young, hidle.heap⟩
  | expression e => exact ⟨not_false.elim, trivial, hidle.young, hidle.heap⟩
  | call callee arguments => exact (apply_proceeds plain_nil (.refl s) callee arguments).confined hidle
  | invocation callee arguments => exact (invoke_proceeds plain_nil (.refl s) callee arguments).confined hidle

/-- At every moment of the run of a construct, the scopes that were there bind the names that they bound, except the
current one if the construct declares names in it. -/
theorem advance_bindsLocally (settings : Settings) (n : Nat) (x : Construct) (s : State) {t : ScopeId}
    (ht : t.index < s.heap.scopes.size) (hscope : x.Declares → t ≠ s.scope) (name : String) :
    ((x.start settings [] s).advance settings n).state.heap.bindsLocally t name = s.heap.bindsLocally t name := by
  refine (advance_confined settings n (start_confined settings x s)).heap.names t ?_ name
  rintro (hnew | ⟨hdeclares, hsame⟩)
  · omega
  · exact hscope hdeclares hsame

/-- A name is assigned where it is bound already, or nowhere: no scope comes to bind another name, and none is added. -/
theorem step_assign (settings : Settings) (v : Value) (target : String) (frames : List Frame) (s : State) :
    (step settings ⟨.deliver (.value v), .assign target :: frames, s⟩).state.heap.scopes.size = s.heap.scopes.size ∧
    ∀ t name, (step settings ⟨.deliver (.value v), .assign target :: frames, s⟩).state.heap.bindsLocally t name =
      s.heap.bindsLocally t name := by
  simp only [step, resume]
  split
  · rename_i hfound
    exact ⟨Heap.size_scopes_define, fun t name => Heap.bindsLocally_define (Heap.bindsLocally_of_locate? hfound)⟩
  · exact ⟨rfl, fun _ _ => rfl⟩

end Config

namespace Interpreter

/-- Declarations do not leak. Whatever is run in whatever context and state, and however it ends, every scope that was
there before binds the names that it bound, except the current scope if a statement was executed that declares names in
it; a block, an expression and a call declare none. So it is at every moment of the run. An assignment adds no scope and
binds a name that no scope bound neither in a program nor from outside. -/
theorem declarations_stay (settings : Settings) :
    (∀ (context : List Frame) (s s' : State) (x : Construct) (completion : Completion),
      EndsAbove settings context (x.start settings context s) completion s' →
        ∀ t : ScopeId, t.index < s.heap.scopes.size → (x.Declares → t ≠ s.scope) →
          ∀ name, s'.heap.bindsLocally t name = s.heap.bindsLocally t name) ∧
    (∀ (n : Nat) (s : State) (x : Construct) (t : ScopeId), t.index < s.heap.scopes.size →
      (x.Declares → t ≠ s.scope) → ∀ name,
        ((x.start settings [] s).advance settings n).state.heap.bindsLocally t name = s.heap.bindsLocally t name) ∧
    (∀ (v : Value) (target : String) (frames : List Frame) (s : State),
      (step settings ⟨.deliver (.value v), .assign target :: frames, s⟩).state.heap.scopes.size = s.heap.scopes.size ∧
      ∀ t name, (step settings ⟨.deliver (.value v), .assign target :: frames, s⟩).state.heap.bindsLocally t name =
        s.heap.bindsLocally t name) ∧
    (∀ (i i' : Interpreter) (target : String) (v : Value), i.assign target v = .ok i' →
      i'.state.heap.scopes.size = i.state.heap.scopes.size ∧
      ∀ t name, i'.state.heap.bindsLocally t name = i.state.heap.bindsLocally t name) := by
  refine ⟨?_, ?_, step_assign settings, ?_⟩
  · intro context s s' x completion hrun t ht hscope name
    obtain ⟨n, hn⟩ := hrun.exists_advance (x.start_above settings context s)
    have hnames := advance_bindsLocally settings n x s ht hscope name
    rw [hn] at hnames
    exact hnames
  · intro n s x t ht hscope name
    exact advance_bindsLocally settings n x s ht hscope name
  · intro i i' target v hassign
    obtain ⟨heap, hheap, rfl⟩ := assign_eq_withHeap hassign
    obtain ⟨found, hfound, rfl⟩ := Option.map_eq_some_iff.1 hheap
    exact ⟨Heap.size_scopes_define, fun t name => Heap.bindsLocally_define (Heap.bindsLocally_of_locate? hfound)⟩

/-- A block that declares a variable and a function, and then calls the function, which declares another variable and
fails. -/
def failingBlock : Stmt :=
  .block [.varDecl "x" none,
    .funDecl (.mk "f" ["y"] [.varDecl "z" none, .expression (.variable "missing")]),
    .expression (.call (.variable "f") [.literal .nil])]

/-- The state in which `failingBlock` ends. -/
def failingBlockEnd : State :=
  ((⟨.execute failingBlock, [], (fresh ⟨3, fun _ => 0⟩).state⟩ : Config).advance ⟨3, fun _ => 0⟩ 30).state

/-- The block leaves nothing behind in the global scope, and its variable is not there to be assigned. -/
theorem declarations_stay_failingBlock :
    EndsAbove ⟨3, fun _ => 0⟩ [.discard]
        ((Construct.statement failingBlock).start ⟨3, fun _ => 0⟩ [.discard] (fresh ⟨3, fun _ => 0⟩).state)
        (.error (.unresolvedName "missing")) failingBlockEnd ∧
      (∀ name, failingBlockEnd.heap.bindsLocally ⟨0⟩ name =
        (fresh ⟨3, fun _ => 0⟩).state.heap.bindsLocally ⟨0⟩ name) ∧
      ∃ i, (fresh ⟨3, fun _ => 0⟩).assign "len" .nil = .ok i ∧
        ∀ t name, i.state.heap.bindsLocally t name = (fresh ⟨3, fun _ => 0⟩).state.heap.bindsLocally t name := by
  have hend : (⟨.execute failingBlock, [], (fresh ⟨3, fun _ => 0⟩).state⟩ : Config).advance ⟨3, fun _ => 0⟩ 30 =
      ⟨.deliver (.error (.unresolvedName "missing")), [], failingBlockEnd⟩ := rfl
  have hrun := endsAbove_of_advance ⟨3, fun _ => 0⟩ [.discard] hend
  have hassign : (fresh ⟨3, fun _ => 0⟩).assign "len" .nil =
      .ok ((fresh ⟨3, fun _ => 0⟩).withHeap ((fresh ⟨3, fun _ => 0⟩).state.heap.define ⟨0⟩ "len" .nil)) := rfl
  obtain ⟨hconstruct, -, -, houtside⟩ := declarations_stay ⟨3, fun _ => 0⟩
  exact ⟨hrun, hconstruct _ _ _ (.statement failingBlock) _ hrun ⟨0⟩ (by decide) not_false.elim, _, hassign,
    (houtside _ _ _ _ hassign).2⟩

end Interpreter

end Lox
