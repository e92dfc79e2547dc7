import Lox.Proofs.Heap.Activations
import Lox.Proofs.Heap.Shadowing
import Lox.Proofs.Machine.Sequence

/-!
# Rules of evaluation

How expressions, statements, the bodies of functions and calls end, by how their parts end. A run that hands a value to
a frame goes on with what the frame makes of the value (`Finishes.resumed`), and a completion that is no value passes
the frames that take values only (`Finishes.passed`); the rules for each form of expression and statement are put
together from these two. A call of a function ends as its body does, which runs in an activation (`Calls.function`).
-/

namespace Lox

open Config

/-- The evaluation of an expression in a state ends with a completion, in another state. -/
def Evaluates (settings : Settings) (e : Expr) (s : State) (completion : Completion) (s' : State) : Prop :=
  (⟨.evaluate e, [], s⟩ : Config).Finishes settings completion s'

/-- So does the execution of a statement, -/
def Executes (settings : Settings) (st : Stmt) (s : State) (completion : Completion) (s' : State) : Prop :=
  (⟨.execute st, [], s⟩ : Config).Finishes settings completion s'

/-- of several statements, -/
def Runs (settings : Settings) (body : List Stmt) (s : State) (completion : Completion) (s' : State) : Prop :=
  (⟨.deliver (.value .nil), [.statements body], s⟩ : Config).Finishes settings completion s'

/-- and of a call. -/
def Calls (settings : Settings) (callee : Value) (arguments : List Value) (s : State) (completion : Completion)
    (s' : State) : Prop :=
  (apply settings callee arguments [] s).Finishes settings completion s'

/-- Expressions are evaluated to values one after another. -/
inductive EvaluatesAll (settings : Settings) : List Expr → State → List Value → State → Prop
  | nil (s : State) : EvaluatesAll settings [] s [] s
  | cons {e : Expr} {rest : List Expr} {v : Value} {values : List Value} {s s₁ s' : State}
    (hfirst : Evaluates settings e s (.value v) s₁) (hrest : EvaluatesAll settings rest s₁ values s') :
    EvaluatesAll settings (e :: rest) s (v :: values) s'

/-- What an expression comes to whose value is to be returned. -/
def Completion.returning : Completion → Completion
  | value v => returned v
  | c => c

/-- What the body of a function comes to, for the caller. -/
def Completion.leaving : Completion → Completion
  | value _ => value .nil
  | returned v => value v
  | broke => error .invalidBreak
  | error e => error e

/-- A result that is returned is the result of the call. -/
@[simp] theorem Completion.leaving_returning_ofExcept (r : Except RuntimeError Value) :
    (ofExcept r).returning.leaving = ofExcept r := by
  cases r <;> rfl

/-- The result of a completion that is made of a result is this result. -/
@[simp] theorem Completion.result_ofExcept (r : Except RuntimeError Value) : (ofExcept r).result = r := by
  cases r <;> rfl

variable {settings : Settings} {e part left right callee test value : Expr} {st thenBranch : Stmt} {rest : List Stmt}
  {s s₁ s₂ s' : State} {completion : Completion} {v w f : Value} {values : List Value} {frame : Frame}
  {frames : List Frame} {c : Config} {x : RuntimeError} {name : String} {arguments : List Expr}

namespace Config

/-- An expression has something left to do. -/
theorem not_isFinal_evaluate : ¬(⟨.evaluate e, frames, s⟩ : Config).IsFinal := by
  rintro ⟨completion, s', h⟩
  simp at h

/-- So has a statement. -/
theorem not_isFinal_execute : ¬(⟨.execute st, frames, s⟩ : Config).IsFinal := by
  rintro ⟨completion, s', h⟩
  simp at h

/-- What a run above a frame hands to it as a value, the frame goes on with. -/
theorem Finishes.resumed (hend : c.Finishes settings (.value v) s₁)
    (hrest : (resume settings frame v [] s₁).Finishes settings completion s') :
    (c.above [frame]).Finishes settings completion s' :=
  finishes_above.2 ⟨_, s₁, hend, (finishes_step not_isFinal_cons).2 hrest⟩

/-- What is no value passes a frame that takes values only. -/
theorem Finishes.passed (hend : c.Finishes settings completion s') (hframe : TakesValues frame)
    (hcompletion : ∀ v, completion ≠ .value v) : (c.above [frame]).Finishes settings completion s' :=
  (finishes_frame hframe).2 (.inr ⟨hcompletion, hend⟩)

/-- An expression above a frame that takes values ends as the frame does with the value, or as it does by itself if not
with a value. -/
theorem finishes_evaluate (hframe : TakesValues frame) :
    (⟨.evaluate part, [frame], s⟩ : Config).Finishes settings completion s' ↔
      (∃ v s₁, Evaluates settings part s (.value v) s₁ ∧
        (resume settings frame v [] s₁).Finishes settings completion s') ∨
      ((∀ v, completion ≠ .value v) ∧ Evaluates settings part s completion s') := by
  refine (finishes_frame (c := ⟨.evaluate part, [], s⟩) hframe).trans (or_congr_left ?_)
  exact exists_congr fun v => exists_congr fun s₁ => and_congr_right fun _ => finishes_step not_isFinal_cons

/-- Where nothing is left to do, a run has ended. -/
theorem finishes_here (completion : Completion) (s : State) :
    (⟨.deliver completion, [], s⟩ : Config).Finishes settings completion s :=
  finishes_final.2 ⟨rfl, rfl⟩

end Config

/-! ## Expressions -/

/-- An expression ends as it does after the first step. -/
theorem evaluates_iff : Evaluates settings e s completion s' ↔
    (evaluate settings e [] s).Finishes settings completion s' :=
  finishes_step not_isFinal_evaluate

/-- A literal is its value. -/
theorem Evaluates.literal (l : Literal) (s : State) : Evaluates settings (.literal l) s (.value l.value) s :=
  evaluates_iff.2 (finishes_here _ s)

/-- A variable is what its name means. -/
theorem Evaluates.variable (hname : s.heap.lookup? s.scope name = some v) :
    Evaluates settings (.variable name) s (.value v) s := by
  have hlookup : evaluate settings (.variable name) [] s = yield v [] s := by simp only [evaluate, lookup, hname]
  exact evaluates_iff.2 (hlookup ▸ finishes_here _ s)

/-- An operator is applied to the values of its operands. -/
theorem Evaluates.binary {op : BinaryOp} (hleft : Evaluates settings left s (.value v) s₁)
    (hright : Evaluates settings right s₁ (.value w) s₂) :
    Evaluates settings (.binary left op right) s (.ofExcept (s₂.heap.binary op v w)) s₂ :=
  evaluates_iff.2 (hleft.resumed (hright.resumed (finishes_here _ s₂)))

/-- The error of a left operand is that of the operation. -/
theorem Evaluates.binary_error {op : BinaryOp} (hleft : Evaluates settings left s (.error x) s₁) :
    Evaluates settings (.binary left op right) s (.error x) s₁ :=
  evaluates_iff.2 (hleft.passed (fun _ _ _ => rfl) nofun)

/-- An assignment binds the name anew where it is bound. -/
theorem Evaluates.assign {t : ScopeId} (hvalue : Evaluates settings value s (.value v) s₁) (hnested : s₁.heap.Nested)
    (hopens : s₁.heap.OpensTo name s₁.scope t) (hown : s₁.heap.own t name = some w) :
    Evaluates settings (.assign name value) s (.value v) { s₁ with heap := s₁.heap.define t name v } := by
  have hassign : resume settings (.assign name) v [] s₁ =
      yield v [] { s₁ with heap := s₁.heap.define t name v } := by simp only [resume, hopens.locate?_eq hown hnested]
  exact evaluates_iff.2 (hvalue.resumed (hassign ▸ finishes_here _ _))

/-- What is left of several arguments is evaluated before the call. -/
theorem EvaluatesAll.gather (hall : EvaluatesAll settings arguments s values s₁) (done : List Value)
    (hcall : Calls settings f (done.reverse ++ values) s₁ completion s') :
    (gather settings (.arguments f) done arguments [] s).Finishes settings completion s' := by
  induction hall generalizing done with
  | nil s =>
    rw [List.append_nil] at hcall
    exact hcall
  | @cons e rest v values s s₁ s₂ hfirst hrest ih =>
    refine Finishes.resumed hfirst (ih (v :: done) ?_)
    simpa only [List.reverse_cons, List.append_assoc, List.singleton_append] using hcall

/-- What is called is evaluated first, then the arguments, and then the call is made. -/
theorem Evaluates.call (hcallee : Evaluates settings callee s (.value f) s₁)
    (harguments : EvaluatesAll settings arguments s₁ values s₂) (hcall : Calls settings f values s₂ completion s') :
    Evaluates settings (.call callee arguments) s completion s' :=
  evaluates_iff.2 (hcallee.resumed (harguments.gather [] hcall))

/-! ## Statements -/

/-- A statement ends as it does after the first step. -/
theorem executes_iff : Executes settings st s completion s' ↔ (execute st [] s).Finishes settings completion s' :=
  finishes_step not_isFinal_execute

/-- An expression statement drops the value. -/
theorem Executes.expression (hvalue : Evaluates settings e s (.value v) s') :
    Executes settings (.expression e) s (.value .nil) s' :=
  executes_iff.2 (hvalue.resumed (finishes_here _ s'))

/-- A variable is declared with the value of its initializer. -/
theorem Executes.varDecl (hvalue : Evaluates settings value s (.value v) s₁) :
    Executes settings (.varDecl name (some value)) s (.value .nil)
      { s₁ with heap := s₁.heap.define s₁.scope name v } :=
  executes_iff.2 (hvalue.resumed (finishes_here _ _))

/-- The error of an initializer is that of the declaration. -/
theorem Executes.varDecl_error (hvalue : Evaluates settings value s (.error x) s') :
    Executes settings (.varDecl name (some value)) s (.error x) s' :=
  executes_iff.2 (hvalue.passed (fun _ _ _ => rfl) nofun)

/-- A function is declared as one that closes over the scope. -/
theorem Executes.funDecl (d : FunDecl) (s : State) :
    Executes settings (.funDecl d) s (.value .nil)
      { s with heap := s.heap.declareFunction s.scope d } :=
  executes_iff.2 (finishes_here _ _)

/-- A conditional whose test holds ends as its branch does. -/
theorem Executes.conditional_true (htest : Evaluates settings test s (.value v) s₁) (hv : v.isTruthy = true)
    (hthen : Executes settings thenBranch s₁ completion s') {elseBranch : Option Stmt} :
    Executes settings (.conditional test thenBranch elseBranch) s completion s' := by
  have hbranch : resume settings (.branch thenBranch elseBranch) v [] s₁ = ⟨.execute thenBranch, [], s₁⟩ :=
    if_pos hv
  exact executes_iff.2 (htest.resumed (hbranch ▸ hthen))

/-- One without another branch does nothing more if its test does not hold. -/
theorem Executes.conditional_false (htest : Evaluates settings test s (.value v) s') (hv : v.isTruthy = false) :
    Executes settings (.conditional test thenBranch none) s (.value .nil) s' := by
  have hbranch : resume settings (.branch thenBranch none) v [] s' = yield .nil [] s' :=
    if_neg (by simp [hv])
  exact executes_iff.2 (htest.resumed (hbranch ▸ finishes_here _ s'))

/-- The error of a test is that of the conditional. -/
theorem Executes.conditional_error (htest : Evaluates settings test s (.error x) s') {elseBranch : Option Stmt} :
    Executes settings (.conditional test thenBranch elseBranch) s (.error x) s' :=
  executes_iff.2 (htest.passed (fun _ _ _ => rfl) nofun)

/-- A return statement returns what its expression comes to. -/
theorem Executes.returnValue {r : Except RuntimeError Value} (hvalue : Evaluates settings value s (.ofExcept r) s') :
    Executes settings (.returnValue (some value)) s (Completion.ofExcept r).returning s' := by
  cases r with
  | ok v => exact executes_iff.2 (hvalue.resumed (finishes_here _ s'))
  | error x => exact executes_iff.2 (hvalue.passed (fun _ _ _ => rfl) nofun)

/-! ## Statements one after another -/

/-- After the last statement nothing is left to do. -/
theorem Runs.nil (s : State) : Runs settings [] s (.value .nil) s :=
  finishes_statements_nil.2 ⟨rfl, rfl⟩

/-- After a statement that ends with a value the others are run. -/
theorem Runs.cons (hfirst : Executes settings st s (.value v) s₁) (hrest : Runs settings rest s₁ completion s') :
    Runs settings (st :: rest) s completion s' := by
  refine finishes_statements_cons.2 (.inl ⟨v, s₁, hfirst, ?_⟩)
  rw [finishes_step not_isFinal_cons, step_statements, ← finishes_step not_isFinal_cons]
  exact hrest

/-- After one that ends otherwise they are not. -/
theorem Runs.stop (hfirst : Executes settings st s completion s') (hvalue : ∀ v, completion ≠ .value v) :
    Runs settings (st :: rest) s completion s' :=
  finishes_statements_cons.2 (.inr ⟨hvalue, hfirst⟩)

/-- Nothing comes after a return statement. -/
theorem Runs.returnValue {r : Except RuntimeError Value} (hvalue : Evaluates settings value s (.ofExcept r) s') :
    Runs settings (.returnValue (some value) :: rest) s (Completion.ofExcept r).returning s' :=
  .stop (.returnValue hvalue) (by cases r <;> exact nofun)

/-! ## Calls -/

/-- The state in which the body of a function is run. -/
def State.activate (s : State) (f : FunctionId) (values : List Value) : State :=
  { s with
    heap := s.heap.activation (s.heap.function f).scope (s.heap.function f).declaration.parameters values
    scope := ⟨s.heap.scopes.size⟩
    depth := s.depth + 1 }

/-- A call that is one too many is an error. -/
theorem Calls.overflow {arity : Arity} (hcallable : s.heap.callable? f = some (name, arity))
    (harity : arity.accepts values.length = true) (hdepth : settings.maxCallDepth ≤ s.depth) :
    Calls settings f values s (.error (.stackOverflow settings.maxCallDepth)) s := by
  have happly : apply settings f values [] s = raise (.stackOverflow settings.maxCallDepth) [] s := by
    simp only [apply, hcallable, harity, Bool.not_true, Bool.false_eq_true, if_false, if_pos hdepth]
  rw [Calls, happly]
  exact finishes_here _ s

/-- So is one of a function. -/
theorem Calls.function_overflow {f : FunctionId} {d : FunDecl} {p : ScopeId} (hclosure : s.heap.function f = ⟨d, p⟩)
    (harity : values.length = d.parameters.length) (hdepth : settings.maxCallDepth ≤ s.depth) :
    Calls settings (.function f) values s (.error (.stackOverflow settings.maxCallDepth)) s := by
  have hdeclaration : (s.heap.function f).declaration = d := by rw [hclosure]
  rw [← hdeclaration] at harity
  exact .overflow rfl (decide_eq_true harity) hdepth

/-- Any other call that has the right number of arguments is made. -/
theorem apply_eq_invoke {arity : Arity} (hcallable : s.heap.callable? f = some (name, arity))
    (harity : arity.accepts values.length = true) (hdepth : s.depth < settings.maxCallDepth) :
    apply settings f values [] s = invoke settings f values [.leaveCall] { s with depth := s.depth + 1 } := by
  simp only [apply, hcallable, harity, Bool.not_true, Bool.false_eq_true, if_false, if_neg (Nat.not_le.2 hdepth)]

/-- A function ends as its body does, and the caller has its scope and depth back. -/
theorem Calls.function {f : FunctionId} (harity : values.length = (s.heap.function f).declaration.parameters.length)
    (hdepth : s.depth < settings.maxCallDepth)
    (hbody : Runs settings (s.heap.function f).declaration.body (s.activate f values) completion s₁) :
    Calls settings (.function f) values s completion.leaving { s₁ with scope := s.scope, depth := s₁.depth - 1 } := by
  have hcallable : s.heap.callable? (.function f) =
      some ((s.heap.function f).declaration.name, s.heap.functionArity f) := rfl
  have harity' : (s.heap.functionArity f).accepts values.length = true := decide_eq_true harity
  have hinvoke : apply settings (.function f) values [] s = (⟨.deliver (.value .nil),
      [.statements (s.heap.function f).declaration.body], s.activate f values⟩ : Config).above
        [.leaveFunction s.scope, .leaveCall] := apply_eq_invoke hcallable harity' hdepth
  rw [Calls, hinvoke]
  refine finishes_above.2 ⟨completion, s₁, hbody, ⟨2, ?_⟩⟩
  cases completion <;> rfl

/-- A state is an activation of a function that is called in another state: the heap has grown by a scope, in which a
parameter means the argument, and every other name what it means around the function. -/
structure State.IsActivation (s : State) (p : ScopeId) (names : List String) (values : List Value) (s₁ : State) :
    Prop where
  nested : s₁.heap.Nested
  grows : s.heap.Grows s₁.heap
  there : s₁.scope.index < s₁.heap.scopes.size
  new : s.heap.scopes.size ≤ s₁.scope.index
  depth : s₁.depth = s.depth + 1
  own : ∀ name, s₁.heap.own s₁.scope name = Heap.argument? names values name
  parent : (s₁.heap.scope s₁.scope).parent = some p
  lookup? : ∀ name, s₁.heap.lookup? s₁.scope name =
    (Heap.argument? names values name).or (s.heap.lookup? p name)

/-- The body of a function is run in an activation. -/
theorem State.isActivation {f : FunctionId} {d : FunDecl} {p : ScopeId} (hnested : s.heap.Nested)
    (hclosure : s.heap.function f = ⟨d, p⟩) (hp : p.index < s.heap.scopes.size) (values : List Value) :
    s.IsActivation p d.parameters values (s.activate f values) := by
  have hgrows : s.heap.Grows (s.heap.activation p d.parameters values) :=
    (Heap.Grows.refl s.heap).activation hnested hp d.parameters values
  have hactivate : (s.activate f values).heap = s.heap.activation p d.parameters values := by
    rw [State.activate, hclosure]
  refine ⟨?_, ?_, ?_, Nat.le_refl _, rfl, fun name => ?_, ?_, fun name => ?_⟩ <;> rw [hactivate]
  · exact hgrows.nested hnested
  · exact hgrows
  · exact Nat.lt_of_lt_of_eq (Nat.lt_succ_self _) Heap.size_scopes_activation.symm
  · exact Heap.own_activation.trans (if_pos rfl)
  · exact Heap.parent_activation.trans (if_pos rfl)
  · exact Heap.lookup?_activation hnested hp

/-- A function whose body returns a result ends with this result, and the caller finds nothing changed but the heap. -/
theorem Calls.function_of_runs {f : FunctionId} {d : FunDecl} {p : ScopeId} {r : Except RuntimeError Value} {h' : Heap}
    (hclosure : s.heap.function f = ⟨d, p⟩) (harity : values.length = d.parameters.length)
    (hdepth : s.depth < settings.maxCallDepth)
    (hruns : Runs settings d.body (s.activate f values) (Completion.ofExcept r).returning
      { s.activate f values with heap := h' }) :
    Calls settings (.function f) values s (.ofExcept r) { s with heap := h' } := by
  have hdeclaration : (s.heap.function f).declaration = d := by rw [hclosure]
  rw [← hdeclaration] at harity hruns
  have hcall := Calls.function harity hdepth hruns
  rw [Completion.leaving_returning_ofExcept] at hcall
  exact hcall

/-- If the body lets the heap of the caller grow in every activation, the call does. -/
theorem Calls.function_growing {f : FunctionId} {d : FunDecl} {p : ScopeId} {r : Except RuntimeError Value}
    (hnested : s.heap.Nested) (hclosure : s.heap.function f = ⟨d, p⟩) (hp : p.index < s.heap.scopes.size)
    (harity : values.length = d.parameters.length) (hdepth : s.depth < settings.maxCallDepth)
    (hbody : ∀ s₁, s.IsActivation p d.parameters values s₁ →
      ∃ h', s.heap.Grows h' ∧ Runs settings d.body s₁ (Completion.ofExcept r).returning { s₁ with heap := h' }) :
    ∃ h', s.heap.Grows h' ∧ Calls settings (.function f) values s (.ofExcept r) { s with heap := h' } := by
  obtain ⟨h', hgrows, hruns⟩ := hbody _ (s.isActivation hnested hclosure hp values)
  exact ⟨h', hgrows, .function_of_runs hclosure harity hdepth hruns⟩

end Lox
