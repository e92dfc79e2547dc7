import Lox.Proofs.Machine.Pinned

/-!
# What a step does to scopes and control

A step seen from outside of expressions: which statements it begins, which frames that keep statements or scopes it adds
and takes away, where it declares names, and which completions it passes on. `Moves` lists all that a step can do to
these; the work of expressions, which concerns none of them, is one case of it (`Proceeds`). Every step of the machine
is such a move (`step_moves`), so that a property of scopes and control is kept by steps if it is kept by moves.
-/

namespace Lox

/-- A frame that keeps neither a statement nor a scope and that declares and returns nothing: it waits for the value of
an expression, or ends an expression statement, an initializer or a call. -/
def Frame.IsPlain : Frame → Prop
  | define _ => False
  | branch _ _ => False
  | loopTest _ _ => False
  | loopBody _ _ => False
  | returning => False
  | statements _ => False
  | leaveBlock _ => False
  | leaveFunction _ => False
  | _ => True

/-- The errors of a break or a return that nothing absorbed. -/
def RuntimeError.IsStray : RuntimeError → Prop
  | invalidBreak => True
  | returnOutsideFunction => True
  | _ => False

/-- What an expression comes to next: another expression, a value, or an error, but none of a break or a return. -/
def Focus.IsWork : Focus → Prop
  | evaluate _ => True
  | execute _ => False
  | deliver (.value _) => True
  | deliver (.error e) => ¬e.IsStray
  | deliver (.returned _) => False
  | deliver .broke => False

/-- What is delivered behind a block that ends in some way. -/
def Completion.behindBlock : Completion → Completion
  | value _ => value .nil
  | completion => completion

/-- What is delivered behind a function whose body ends in some way. -/
def Completion.behindFunction : Completion → Completion
  | value _ => value .nil
  | returned v => value v
  | broke => error .invalidBreak
  | error e => error e

/-- The current scope stays, and so do all scopes and functions. -/
structure State.KeepsScopes (s s' : State) : Prop where
  scope : s'.scope = s.scope
  scopes : s'.heap.scopes = s.heap.scopes
  functions : s'.heap.functions = s.heap.functions

/-- A state keeps its own scopes. -/
theorem State.KeepsScopes.refl (s : State) : s.KeepsScopes s :=
  ⟨rfl, rfl, rfl⟩

namespace Config

/-- How the work of an expression goes on above some frames: with other work of expressions, or in a function that is
entered. -/
inductive Proceeds (frames : List Frame) (s : State) : Config → Prop
  | work (focus : Focus) (pushed : List Frame) {s' : State} (hfocus : focus.IsWork)
      (hpushed : ∀ frame ∈ pushed, frame.IsPlain) (hs : s.KeepsScopes s') :
      Proceeds frames s ⟨focus, pushed ++ frames, s'⟩
  | enter (f : FunctionId) (receiver : Option InstanceId) (arguments : List Value) (pushed : List Frame) (s' : State)
      (hpushed : ∀ frame ∈ pushed, frame.IsPlain) (hs : s.KeepsScopes s') :
      Proceeds frames s (Config.enter f receiver arguments (pushed ++ frames) s')

/-- What a step can do. -/
inductive Moves : Config → Config → Prop
  /-- An expression, or a plain frame that takes a value. -/
  | work (taken : List Frame) {focus : Focus} {frames : List Frame} {s : State} {c' : Config}
      (htaken : ∀ frame ∈ taken, frame.IsPlain) (hc' : Proceeds frames s c') : Moves ⟨focus, taken ++ frames, s⟩ c'
  /-- An assignment to a name that some scope binds. -/
  | assign {v found : Value} {target : String} {scope : ScopeId} {frames : List Frame} {s : State}
      (hfound : s.heap.locate? s.scope target = some (scope, found)) :
      Moves ⟨.deliver (.value v), .assign target :: frames, s⟩
        (yield v frames { s with heap := s.heap.define scope target v })
  | define {v : Value} {name : String} {frames : List Frame} {s : State} :
      Moves ⟨.deliver (.value v), .define name :: frames, s⟩
        (yield .nil frames { s with heap := s.heap.define s.scope name v })
  | declare {name : String} {frames : List Frame} {s : State} :
      Moves ⟨.execute (.varDecl name none), frames, s⟩
        (yield .nil frames { s with heap := s.heap.define s.scope name .nil })
  | beginDeclaration {name : String} {init : Expr} {frames : List Frame} {s : State} :
      Moves ⟨.execute (.varDecl name (some init)), frames, s⟩ ⟨.evaluate init, .define name :: frames, s⟩
  | declareFunction {d : FunDecl} {frames : List Frame} {s : State} :
      Moves ⟨.execute (.funDecl d), frames, s⟩
        (yield .nil frames { s with heap :=
          (s.heap.newFunction ⟨d, s.scope⟩).2.define s.scope d.name (.function ⟨s.heap.functions.size⟩) })
  | declareClass {name : String} {parent : Option String} {parentClass : Option ClassId} {ds : List FunDecl}
      {frames : List Frame} {s : State} :
      Moves ⟨.execute (.classDecl name parent ds), frames, s⟩
        (yield .nil frames { s with heap := declaredHeap name parentClass ds s })
  | beginBlock {body : List Stmt} {frames : List Frame} {s : State} :
      Moves ⟨.execute (.block body), frames, s⟩
        ⟨.deliver (.value .nil), .statements body :: .leaveBlock s.scope :: frames,
          { s with heap := (s.heap.newScope (some s.scope)).2, scope := ⟨s.heap.scopes.size⟩ }⟩
  | beginConditional {test : Expr} {thenBranch : Stmt} {elseBranch : Option Stmt} {frames : List Frame} {s : State} :
      Moves ⟨.execute (.conditional test thenBranch elseBranch), frames, s⟩
        ⟨.evaluate test, .branch thenBranch elseBranch :: frames, s⟩
  | beginLoop {test : Expr} {body : Stmt} {frames : List Frame} {s : State} :
      Moves ⟨.execute (.loop test body), frames, s⟩ ⟨.evaluate test, .loopTest test body :: frames, s⟩
  | beginBreak {frames : List Frame} {s : State} :
      Moves ⟨.execute .breakLoop, frames, s⟩ ⟨.deliver .broke, frames, s⟩
  | beginReturn {frames : List Frame} {s : State} :
      Moves ⟨.execute (.returnValue none), frames, s⟩ ⟨.deliver (.returned .nil), frames, s⟩
  | beginReturnValue {value : Expr} {frames : List Frame} {s : State} :
      Moves ⟨.execute (.returnValue (some value)), frames, s⟩ ⟨.evaluate value, .returning :: frames, s⟩
  /-- An expression statement or a `print`. -/
  | beginExpression {st : Stmt} {e : Expr} {frame : Frame} {frames : List Frame} {s : State} (hframe : frame.IsPlain) :
      Moves ⟨.execute st, frames, s⟩ ⟨.evaluate e, frame :: frames, s⟩
  | branch {v : Value} {thenBranch st : Stmt} {elseBranch : Option Stmt} {frames : List Frame} {s : State}
      (hst : st = thenBranch ∨ elseBranch = some st) :
      Moves ⟨.deliver (.value v), .branch thenBranch elseBranch :: frames, s⟩ ⟨.execute st, frames, s⟩
  | noBranch {v : Value} {thenBranch : Stmt} {elseBranch : Option Stmt} {frames : List Frame} {s : State} :
      Moves ⟨.deliver (.value v), .branch thenBranch elseBranch :: frames, s⟩ (yield .nil frames s)
  | loopHolds {v : Value} {test : Expr} {body : Stmt} {frames : List Frame} {s : State} :
      Moves ⟨.deliver (.value v), .loopTest test body :: frames, s⟩ ⟨.execute body, .loopBody test body :: frames, s⟩
  | loopEnds {v : Value} {test : Expr} {body : Stmt} {frames : List Frame} {s : State} :
      Moves ⟨.deliver (.value v), .loopTest test body :: frames, s⟩ (yield .nil frames s)
  | loopAgain {v : Value} {test : Expr} {body : Stmt} {frames : List Frame} {s : State} :
      Moves ⟨.deliver (.value v), .loopBody test body :: frames, s⟩ ⟨.evaluate test, .loopTest test body :: frames, s⟩
  | loopBroken {test : Expr} {body : Stmt} {frames : List Frame} {s : State} :
      Moves ⟨.deliver .broke, .loopBody test body :: frames, s⟩ (yield .nil frames s)
  | returning {v : Value} {frames : List Frame} {s : State} :
      Moves ⟨.deliver (.value v), .returning :: frames, s⟩ ⟨.deliver (.returned v), frames, s⟩
  | noStatement {v : Value} {frames : List Frame} {s : State} :
      Moves ⟨.deliver (.value v), .statements [] :: frames, s⟩ (yield .nil frames s)
  | statement {v : Value} {st : Stmt} {rest : List Stmt} {frames : List Frame} {s : State} :
      Moves ⟨.deliver (.value v), .statements (st :: rest) :: frames, s⟩ ⟨.execute st, .statements rest :: frames, s⟩
  | leaveBlock {completion : Completion} {outer : ScopeId} {frames : List Frame} {s : State} :
      Moves ⟨.deliver completion, .leaveBlock outer :: frames, s⟩
        ⟨.deliver completion.behindBlock, frames, { s with scope := outer }⟩
  | leaveFunction {completion : Completion} {outer : ScopeId} {frames : List Frame} {s : State} :
      Moves ⟨.deliver completion, .leaveFunction outer :: frames, s⟩
        ⟨.deliver completion.behindFunction, frames, { s with scope := outer }⟩
  /-- Of a class whose parent is none, and of any other frame on the way of a completion that is no value. -/
  | fail {st : Stmt} {e : RuntimeError} {frames : List Frame} {s : State} (he : ¬e.IsStray) :
      Moves ⟨.execute st, frames, s⟩ (raise e frames s)
  | pass {completion : Completion} {frame : Frame} {frames : List Frame} {s s' : State}
      (hblock : ∀ outer, frame ≠ .leaveBlock outer) (hfunction : ∀ outer, frame ≠ .leaveFunction outer)
      (hloop : ∀ test body, frame = .loopBody test body → completion ≠ .broke) (hs : s.KeepsScopes s') :
      Moves ⟨.deliver completion, frame :: frames, s⟩ ⟨.deliver completion, frames, s'⟩
  | rest {completion : Completion} {s : State} : Moves ⟨.deliver completion, [], s⟩ ⟨.deliver completion, [], s⟩

/-! ## Functions that are entered -/

/-- Parameters are bound in scopes, and nothing else changes. -/
theorem bindParameters_eq_scopes (scope : ScopeId) : ∀ (names : List String) (values : List Value) (h : Heap),
    ∃ scopes, bindParameters h scope names values = { h with scopes }
  | [], _, _ => ⟨_, rfl⟩
  | _ :: _, [], _ => ⟨_, rfl⟩
  | name :: names, v :: values, h => bindParameters_eq_scopes scope names values (h.define scope name v)

/-- Where a function is entered, nothing but scopes has changed in the heap. -/
theorem heap_enter_eq_scopes (f : FunctionId) (receiver : Option InstanceId) (arguments : List Value)
    (frames : List Frame) (s : State) :
    ∃ scopes, (enter f receiver arguments frames s).state.heap = { s.heap with scopes } := by
  cases receiver <;> exact bindParameters_eq_scopes _ _ _ _

end Config

/-! ## The errors of operators and builtins -/

variable {e : RuntimeError} {h : Heap}

/-- What is made of a result fails as the result does. -/
theorem RuntimeError.not_isStray_of_map {α β : Type} {x : Except RuntimeError α} {f : α → β} (hx : x.map f = .error e)
    (hstray : x = .error e → ¬e.IsStray) : ¬e.IsStray := by
  cases x with
  | error e' => exact hstray (congrArg Except.error (Except.error.inj hx))
  | ok a => exact nomatch hx

/-- Arithmetic fails with no stray break or return unless the operation does. -/
theorem Value.not_isStray_of_arithmetic {op : BinaryOp} {f : Float → Float → Except RuntimeError Float}
    {left right : Value} (hf : ∀ x y, f x y = .error e → ¬e.IsStray) (he : arithmetic op f left right = .error e) :
    ¬e.IsStray := by
  unfold arithmetic at he
  split at he
  · exact RuntimeError.not_isStray_of_map he (hf _ _)
  · exact Except.error.inj he ▸ not_false

/-- Nor does a comparison. -/
theorem Value.not_isStray_of_comparison {op : BinaryOp} {left right : Value}
    (he : (comparison op left right).map Value.boolean = .error e) : ¬e.IsStray := by
  refine RuntimeError.not_isStray_of_map he fun he => RuntimeError.not_isStray_of_map he fun he => ?_
  unfold order at he
  split at he
  · exact nomatch he
  · split at he
    · exact nomatch he
    · exact Except.error.inj he ▸ not_false

/-- Nor does any other binary operator. -/
theorem Heap.not_isStray_of_binary {op : BinaryOp} {left right : Value} (he : h.binary op left right = .error e) :
    ¬e.IsStray := by
  cases op with
  | equal => exact nomatch he
  | notEqual => exact nomatch he
  | lessThan => exact Value.not_isStray_of_comparison he
  | lessThanEqual => exact Value.not_isStray_of_comparison he
  | greaterThan => exact Value.not_isStray_of_comparison he
  | greaterThanEqual => exact Value.not_isStray_of_comparison he
  | add =>
    change h.sum left right = .error e at he
    unfold Heap.sum at he
    split at he
    · exact nomatch he
    · exact nomatch he
    · exact nomatch he
    · exact Except.error.inj he ▸ not_false
  | subtract =>
    have hsubtract : Value.arithmetic .subtract (fun x y => .ok (x - y)) left right = .error e := he
    exact Value.not_isStray_of_arithmetic (fun x y (hok : Except.ok (x - y) = .error e) => nomatch hok) hsubtract
  | multiply =>
    have hmultiply : Value.arithmetic .multiply (fun x y => .ok (x * y)) left right = .error e := he
    exact Value.not_isStray_of_arithmetic (fun x y (hok : Except.ok (x * y) = .error e) => nomatch hok) hmultiply
  | divide =>
    refine Value.not_isStray_of_arithmetic (fun x y hquotient => ?_) he
    unfold Number.quotient at hquotient
    split_ifs at hquotient
    exact Except.error.inj hquotient ▸ not_false

/-- Nor does a unary operator. -/
theorem Value.not_isStray_of_unary {op : UnaryOp} {operand : Value} (he : operand.unary op = .error e) :
    ¬e.IsStray := by
  unfold unary at he
  split at he
  · exact nomatch he
  · exact nomatch he
  · exact Except.error.inj he ▸ not_false

/-- Nor does the check of a position. -/
theorem Heap.not_isStray_of_slot {id : SequenceId} {position : Value} (he : h.slot id position = .error e) :
    ¬e.IsStray := by
  unfold slot at he
  split at he
  · split at he
    · dsimp only at he
      split_ifs at he
      exact Except.error.inj he ▸ not_false
    · exact Except.error.inj he ▸ not_false
  · exact Except.error.inj he ▸ not_false

namespace Builtin

variable {b : Builtin} {arguments : List Value}

/-- An argument that is missing is no stray break or return. -/
theorem not_isStray_of_argument {n : Nat} (he : b.argument arguments n = .error e) : ¬e.IsStray := by
  unfold argument at he
  split at he
  · cases he
  · exact Except.error.inj he ▸ not_false

/-- Nor is an argument that is no sequence. -/
theorem not_isStray_of_sequenceArgument (he : b.sequenceArgument arguments = .error e) : ¬e.IsStray := by
  unfold sequenceArgument at he
  split at he
  · cases he
  · exact Except.error.inj he ▸ not_false
  · rename_i hargument
    exact Except.error.inj he ▸ not_isStray_of_argument hargument

/-- Nor is an argument that is no integer. -/
theorem not_isStray_of_integer {v : Value} (he : b.integer v = .error e) : ¬e.IsStray := by
  unfold integer at he
  split at he
  · split at he
    · split_ifs at he
      exact Except.error.inj he ▸ not_false
    · exact Except.error.inj he ▸ not_false
  · exact Except.error.inj he ▸ not_false

/-- Nor is one among several. -/
theorem not_isStray_of_integers (he : b.integers arguments = .error e) : ¬e.IsStray := by
  induction arguments with
  | nil => cases he
  | cons v others ih =>
    unfold integers at he
    split at he
    · rename_i hinteger
      exact Except.error.inj he ▸ not_isStray_of_integer hinteger
    · exact RuntimeError.not_isStray_of_map he ih

/-- Nor is a range without numbers. -/
theorem not_isStray_of_rangeElements {bounds : List Int} (he : rangeElements bounds = .error e) : ¬e.IsStray := by
  unfold rangeElements at he
  split at he
  · cases he
  · cases he
  · split_ifs at he
    exact Except.error.inj he ▸ not_false
  · exact Except.error.inj he ▸ not_false

/-- No builtin fails with a stray break or return. -/
theorem not_isStray_of_run {time : Float} (he : b.run time arguments h = .error e) : ¬e.IsStray := by
  cases b with
  -- Each builtin fails where it looks at its arguments, if at all.
  | now => simp [run] at he
  | str =>
    simp only [run] at he
    split at he
    · cases he
    · rename_i hargument
      exact Except.error.inj he ▸ not_isStray_of_argument hargument
  | range =>
    simp only [run] at he
    split at he
    · split at he
      · cases he
      · rename_i helements
        exact Except.error.inj he ▸ not_isStray_of_rangeElements helements
    · rename_i hintegers
      exact Except.error.inj he ▸ not_isStray_of_integers hintegers
  | len =>
    simp only [run] at he
    split at he
    · cases he
    · rename_i hsequence
      exact Except.error.inj he ▸ not_isStray_of_sequenceArgument hsequence
  | append =>
    simp only [run] at he
    split at he
    · cases he
    · rename_i hsequence
      exact Except.error.inj he ▸ not_isStray_of_sequenceArgument hsequence
  | rest =>
    simp only [run] at he
    split at he
    · split_ifs at he
      exact Except.error.inj he ▸ not_false
    · rename_i hsequence
      exact Except.error.inj he ▸ not_isStray_of_sequenceArgument hsequence
  | first =>
    simp only [run] at he
    split at he
    · split at he
      · cases he
      · exact Except.error.inj he ▸ not_false
    · rename_i hsequence
      exact Except.error.inj he ▸ not_isStray_of_sequenceArgument hsequence
  | last =>
    simp only [run] at he
    split at he
    · split at he
      · cases he
      · exact Except.error.inj he ▸ not_false
    · rename_i hsequence
      exact Except.error.inj he ▸ not_isStray_of_sequenceArgument hsequence

end Builtin

namespace Config

variable {settings : Settings} {frames : List Frame} {s s' : State} {v : Value}

/-! ## The work of expressions -/

section

variable {pushed : List Frame} (hpushed : ∀ frame ∈ pushed, frame.IsPlain) (hs : s.KeepsScopes s')

include hpushed hs

/-- A value or an error is handed on. -/
theorem settle_proceeds {result : Except RuntimeError Value} (hresult : ∀ e, result = .error e → ¬e.IsStray) :
    Proceeds frames s (settle result (pushed ++ frames) s') := by
  cases result with
  | ok v => exact .work (.deliver (.value v)) pushed trivial hpushed hs
  | error e => exact .work (.deliver (.error e)) pushed (hresult e rfl) hpushed hs

/-- What can be called is run. -/
theorem invoke_proceeds (callee : Value) (arguments : List Value) :
    Proceeds frames s (invoke settings callee arguments (pushed ++ frames) s') := by
  obtain ⟨hscope, hscopes, hfunctions⟩ := hs
  cases callee with
  | function f => exact .enter f none arguments pushed s' hpushed ⟨hscope, hscopes, hfunctions⟩
  | boundMethod b => exact .enter _ (some _) arguments pushed s' hpushed ⟨hscope, hscopes, hfunctions⟩
  | builtin b =>
    simp only [invoke]
    split
    · exact .work (.deliver (.value _)) pushed trivial hpushed ⟨hscope, hscopes, hfunctions⟩
    · exact .work (.deliver (.value _)) pushed trivial hpushed ⟨hscope, hscopes, hfunctions⟩
    · rename_i hrun
      exact .work (.deliver (.error _)) pushed (Builtin.not_isStray_of_run hrun) hpushed
        ⟨hscope, hscopes, hfunctions⟩
  | classObject c =>
    simp only [invoke]
    split
    · rename_i f _
      refine .enter f (some _) arguments (.construct _ :: pushed) _ (fun frame hframe => ?_)
        ⟨hscope, hscopes, hfunctions⟩
      rcases List.mem_cons.1 hframe with rfl | hframe
      · trivial
      · exact hpushed frame hframe
    · exact .work (.deliver (.value _)) pushed trivial hpushed ⟨hscope, hscopes, hfunctions⟩
  | _ => exact .work (.deliver (.error _)) pushed not_false hpushed ⟨hscope, hscopes, hfunctions⟩

/-- A value is called. -/
theorem apply_proceeds (callee : Value) (arguments : List Value) :
    Proceeds frames s (apply settings callee arguments (pushed ++ frames) s') := by
  unfold apply
  split
  · exact .work (.deliver (.error _)) pushed not_false hpushed hs
  · split_ifs
    · exact .work (.deliver (.error _)) pushed not_false hpushed hs
    · exact .work (.deliver (.error _)) pushed not_false hpushed hs
    · have hcall : ∀ frame ∈ .leaveCall :: pushed, frame.IsPlain := by
        intro frame hframe
        rcases List.mem_cons.1 hframe with rfl | hframe
        · trivial
        · exact hpushed frame hframe
      have hdeeper : s.KeepsScopes { s' with depth := s'.depth + 1 } := ⟨hs.scope, hs.scopes, hs.functions⟩
      exact invoke_proceeds hcall hdeeper callee arguments

end

/-- No frame is plain enough to need a reason. -/
theorem plain_nil : ∀ frame ∈ ([] : List Frame), frame.IsPlain :=
  nofun

/-- A single plain frame. -/
theorem plain_singleton {frame : Frame} (hframe : frame.IsPlain) : ∀ other ∈ [frame], other.IsPlain :=
  fun _ hother => List.mem_singleton.1 hother ▸ hframe

/-- The next expression is begun, and a plain frame left behind. -/
theorem push_proceeds (e : Expr) {frame : Frame} (hframe : frame.IsPlain) :
    Proceeds frames s ⟨.evaluate e, frame :: frames, s⟩ :=
  .work _ [frame] trivial (plain_singleton hframe) (.refl s)

/-- The next expression is begun. -/
theorem next_proceeds (e : Expr) : Proceeds frames s ⟨.evaluate e, frames, s⟩ :=
  .work _ [] trivial plain_nil (.refl s)

/-- A value is delivered. -/
theorem yield_proceeds (v : Value) (hs : s.KeepsScopes s') : Proceeds frames s (yield v frames s') :=
  .work _ [] trivial plain_nil hs

/-- An error is delivered that is no stray break or return. -/
theorem raise_proceeds {e : RuntimeError} (he : ¬e.IsStray) : Proceeds frames s (raise e frames s) :=
  .work _ [] he plain_nil (.refl s)

/-- Several expressions are gone on with. -/
theorem gather_proceeds (settings : Settings) (purpose : Gathering) (done : List Value) (todo : List Expr) :
    Proceeds frames s (gather settings purpose done todo frames s) := by
  cases todo with
  | cons e rest => exact push_proceeds e trivial
  | nil =>
    cases purpose with
    | elements => exact yield_proceeds _ ⟨rfl, rfl, rfl⟩
    | arguments callee => exact apply_proceeds plain_nil (.refl s) callee done.reverse

/-- A name is looked up. -/
theorem lookup_proceeds (name : String) : Proceeds frames s (lookup name frames s) := by
  unfold lookup
  split
  · exact yield_proceeds _ (.refl s)
  · exact raise_proceeds not_false

/-- A property is read. -/
theorem readProperty_proceeds (o : InstanceId) (name : String) : Proceeds frames s (readProperty o name frames s) := by
  unfold readProperty
  split
  · exact yield_proceeds _ (.refl s)
  · exact yield_proceeds _ ⟨rfl, rfl, rfl⟩
  · exact raise_proceeds not_false

/-- The parent is missing for no stray break or return. -/
theorem not_isStray_of_superClass {e : RuntimeError} (he : superClass s = .error e) : ¬e.IsStray := by
  unfold superClass at he
  split at he
  · exact nomatch he
  all_goals exact Except.error.inj he ▸ not_false

/-- Nor is the instance. -/
theorem not_isStray_of_thisInstance {e : RuntimeError} (he : thisInstance s = .error e) : ¬e.IsStray := by
  unfold thisInstance at he
  split at he
  · exact nomatch he
  all_goals exact Except.error.inj he ▸ not_false

/-- A method of the parent is read. -/
theorem readSuper_proceeds (name : String) : Proceeds frames s (readSuper name frames s) := by
  unfold readSuper
  split
  · rename_i hsuper
    exact raise_proceeds (not_isStray_of_superClass hsuper)
  · split
    · rename_i hthis
      exact raise_proceeds (not_isStray_of_thisInstance hthis)
    · split
      · exact yield_proceeds _ ⟨rfl, rfl, rfl⟩
      · exact raise_proceeds not_false

/-- An expression is begun. -/
theorem evaluate_proceeds (e : Expr) : Proceeds frames s (evaluate settings e frames s) := by
  cases e with
  | literal l => exact yield_proceeds _ (.refl s)
  | group inner => exact next_proceeds inner
  | list items => exact gather_proceeds settings .elements [] items
  | «variable» name => exact lookup_proceeds name
  | this => exact lookup_proceeds thisName
  | super method => exact readSuper_proceeds method
  | _ => exact push_proceeds _ trivial

/-! ## Steps -/

/-- A statement is begun. -/
theorem execute_moves (st : Stmt) : Moves ⟨.execute st, frames, s⟩ (execute st frames s) := by
  cases st with
  | varDecl name init =>
    cases init with
    | none => exact .declare
    | some init => exact .beginDeclaration
  | funDecl d => exact .declareFunction
  | classDecl name parent ds =>
    cases parent with
    | none =>
      simp only [execute, declareClass_eq]
      exact .declareClass
    | some parent =>
      simp only [execute]
      split
      · rw [declareClass_eq]
        exact .declareClass
      · exact .fail not_false
      · exact .fail not_false
  | expression e => exact .beginExpression trivial
  | print e => exact .beginExpression trivial
  | block body => exact .beginBlock
  | conditional test thenBranch elseBranch => exact .beginConditional
  | loop test body => exact .beginLoop
  | breakLoop => exact .beginBreak
  | returnValue value =>
    cases value with
    | none => exact .beginReturn
    | some value => exact .beginReturnValue

/-- A plain frame takes a value. -/
theorem resume_work {frame : Frame} {c' : Config} (hframe : frame.IsPlain) (hc' : Proceeds frames s c') :
    Moves ⟨.deliver (.value v), frame :: frames, s⟩ c' :=
  .work [frame] (plain_singleton hframe) hc'

/-- The innermost frame takes a value. -/
theorem resume_moves (frame : Frame) :
    Moves ⟨.deliver (.value v), frame :: frames, s⟩ (resume settings frame v frames s) := by
  cases frame with
  | choice ifTrue ifFalse => exact resume_work trivial (next_proceeds _)
  | leftOperand op right => exact resume_work trivial (push_proceeds _ trivial)
  | rightOperand left op =>
    exact resume_work trivial
      (settle_proceeds plain_nil (.refl s) fun _ => Heap.not_isStray_of_binary)
  | operand op =>
    exact resume_work trivial
      (settle_proceeds plain_nil (.refl s) fun _ => Value.not_isStray_of_unary)
  | connective op right =>
    simp only [resume]
    split
    · exact resume_work trivial (yield_proceeds _ (.refl s))
    · exact resume_work trivial (next_proceeds _)
  | callee arguments => exact resume_work trivial (gather_proceeds settings _ _ _)
  | gather purpose done todo => exact resume_work trivial (gather_proceeds settings _ _ _)
  -- An assignment that finds its name is a move of its own, since it binds; one that fails is work like any other.
  | assign target =>
    simp only [resume]
    split
    · rename_i hfound
      exact .assign hfound
    · exact resume_work trivial (raise_proceeds not_false)
  | propertyOwner property =>
    cases v with
    | instanceObject o => exact resume_work trivial (readProperty_proceeds o property)
    | _ => exact resume_work trivial (raise_proceeds not_false)
  | fieldOwner property value =>
    cases v with
    | instanceObject o => exact resume_work trivial (push_proceeds _ trivial)
    | _ => exact resume_work trivial (raise_proceeds not_false)
  | fieldValue o property => exact resume_work trivial (yield_proceeds _ ⟨rfl, rfl, rfl⟩)
  | elementOwner position =>
    cases v with
    | sequence id => exact resume_work trivial (push_proceeds _ trivial)
    | _ => exact resume_work trivial (raise_proceeds not_false)
  | elementPosition id =>
    exact resume_work trivial
      (settle_proceeds plain_nil (.refl s) fun _ he =>
        RuntimeError.not_isStray_of_map he Heap.not_isStray_of_slot)
  | updateOwner position value =>
    cases v with
    | sequence id => exact resume_work trivial (push_proceeds _ trivial)
    | _ => exact resume_work trivial (raise_proceeds not_false)
  | updatePosition id value => exact resume_work trivial (push_proceeds _ trivial)
  | updateValue id position =>
    simp only [resume]
    split
    · exact resume_work trivial (yield_proceeds _ ⟨rfl, rfl, rfl⟩)
    · rename_i hslot
      exact resume_work trivial (raise_proceeds (Heap.not_isStray_of_slot hslot))
  | define name => exact .define
  | discard => exact resume_work trivial (yield_proceeds _ (.refl s))
  | print =>
    simp only [resume, printLine]
    split
    · exact resume_work trivial (yield_proceeds _ ⟨rfl, rfl, rfl⟩)
    · exact resume_work trivial (raise_proceeds not_false)
  -- Moves tell apart what brings a statement into focus, since declarations are statements.
  | branch thenBranch elseBranch =>
    simp only [resume]
    split
    · exact .branch (.inl rfl)
    · cases elseBranch with
      | none => exact .noBranch
      | some other => exact .branch (.inr rfl)
  | loopTest test body =>
    simp only [resume]
    split
    · exact .loopHolds
    · exact .loopEnds
  | loopBody test body => exact .loopAgain
  | returning => exact .returning
  | statements rest =>
    cases rest with
    | nil => exact .noStatement
    | cons st rest => exact .statement
  | leaveBlock outer => exact .leaveBlock
  | leaveFunction outer => exact .leaveFunction
  | construct o => exact resume_work trivial (yield_proceeds _ (.refl s))
  | leaveCall => exact resume_work trivial (yield_proceeds _ ⟨rfl, rfl, rfl⟩)

/-- The innermost frame takes another completion. -/
theorem unwind_moves (frame : Frame) {completion : Completion} (hvalue : ∀ v, completion ≠ .value v) :
    Moves ⟨.deliver completion, frame :: frames, s⟩ (unwind frame completion frames s) := by
  cases frame with
  | loopBody test body =>
    cases completion with
    | value v => exact absurd rfl (hvalue v)
    | broke => exact .loopBroken
    | error e => exact .pass nofun nofun (fun _ _ _ => nofun) (.refl s)
    | returned v => exact .pass nofun nofun (fun _ _ _ => nofun) (.refl s)
  | leaveBlock outer =>
    cases completion with
    | value v => exact absurd rfl (hvalue v)
    | _ => exact .leaveBlock
  | leaveFunction outer =>
    cases completion with
    | value v => exact absurd rfl (hvalue v)
    | _ => exact .leaveFunction
  | leaveCall => exact .pass nofun nofun nofun ⟨rfl, rfl, rfl⟩
  | _ => exact .pass nofun nofun nofun (.refl s)

/-- Every step is a move. -/
theorem step_moves (settings : Settings) (c : Config) : Moves c (step settings c) := by
  obtain ⟨focus, frames, s⟩ := c
  cases focus with
  | evaluate e => exact .work [] plain_nil (evaluate_proceeds e)
  | execute st => exact execute_moves st
  | deliver completion =>
    cases frames with
    | nil => exact .rest
    | cons frame frames =>
      cases completion with
      | value v => exact resume_moves frame
      | error e => exact unwind_moves frame nofun
      | returned v => exact unwind_moves frame nofun
      | broke => exact unwind_moves frame nofun

end Config

end Lox
