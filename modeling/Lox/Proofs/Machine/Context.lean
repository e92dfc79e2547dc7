import Mathlib.Tactic.SplitIfs
import Lox.Machine.Step

/-!
# Runs inside a context

What the machine does above some frames does not depend on them: `step_above` says that a step commutes with further
frames below, as long as something is left to do above them. `EndsAbove` is the run of a construct in a context, from
its start to the point where its outcome is handed to the frames of the context.
-/

namespace Lox.Config

/-- A configuration in which nothing is left to do. -/
def IsFinal (c : Config) : Prop :=
  ∃ completion s, c = ⟨.deliver completion, [], s⟩

/-- The outcome of a configuration in which nothing is left to do is what it delivers. -/
theorem final?_eq_some_iff {c : Config} {completion : Completion} {s : State} :
    c.final? = some (completion, s) ↔ c = ⟨.deliver completion, [], s⟩ := by
  obtain ⟨focus, frames, s'⟩ := c
  cases focus <;> cases frames <;> simp [final?]

/-- A configuration in which nothing is left to do stays as it is. -/
theorem advance_final (settings : Settings) (n : Nat) (completion : Completion) (s : State) :
    (⟨.deliver completion, [], s⟩ : Config).advance settings n = ⟨.deliver completion, [], s⟩ := by
  cases n <;> rfl

/-- A run takes a step first if something is left to do. -/
theorem advance_succ {settings : Settings} {n : Nat} {c : Config} (h : ¬c.IsFinal) :
    c.advance settings (n + 1) = (step settings c).advance settings n := by
  rw [advance]
  intro completion s hc
  exact h ⟨completion, s, hc⟩

/-- A run of some steps and then of others is one run. -/
theorem advance_add (settings : Settings) (m n : Nat) (c : Config) :
    c.advance settings (m + n) = (c.advance settings m).advance settings n := by
  induction m generalizing c with
  | zero => rw [Nat.zero_add, advance]
  | succ m ih =>
    by_cases hfinal : c.IsFinal
    · obtain ⟨completion, s, rfl⟩ := hfinal
      rw [advance_final, advance_final, advance_final]
    · rw [Nat.succ_add, advance_succ hfinal, advance_succ hfinal, ih]

/-- A run takes its last step where the run before it has come to. -/
theorem advance_succ_last (settings : Settings) (n : Nat) (c : Config) :
    c.advance settings (n + 1) = step settings (c.advance settings n) := by
  rw [advance_add settings n 1]
  by_cases hfinal : (c.advance settings n).IsFinal
  · obtain ⟨completion, s, heq⟩ := hfinal
    rw [heq, advance_final]
    cases completion <;> rfl
  · rw [advance_succ hfinal, advance]

/-- What every step keeps, every run keeps. -/
theorem advance_keeps {p : Config → Prop} {settings : Settings} (hstep : ∀ c, p c → p (step settings c)) (n : Nat)
    {c : Config} (hc : p c) : p (c.advance settings n) := by
  induction n generalizing c with
  | zero => exact hc
  | succ n ih =>
    by_cases hfinal : c.IsFinal
    · obtain ⟨completion, s, rfl⟩ := hfinal
      rw [advance_final]
      exact hc
    · rw [advance_succ hfinal]
      exact ih (hstep c hc)

/-- The configuration with the frames of a context below its own. -/
def above (c : Config) (context : List Frame) : Config :=
  ⟨c.focus, c.frames ++ context, c.state⟩

variable (settings : Settings) (context frames : List Frame) (s : State)

/-! ## The parts of a step -/

/-- Running what can be called looks at no frame. -/
theorem invoke_above (callee : Value) (arguments : List Value) :
    invoke settings callee arguments (frames ++ context) s =
      (invoke settings callee arguments frames s).above context := by
  cases callee with
  | builtin b =>
    simp only [invoke]
    split <;> rfl
  | classObject c =>
    simp only [invoke]
    split <;> rfl
  | _ => rfl

/-- A call looks at no frame. -/
theorem apply_above (callee : Value) (arguments : List Value) :
    apply settings callee arguments (frames ++ context) s =
      (apply settings callee arguments frames s).above context := by
  unfold apply
  split
  · rfl
  · split_ifs
    · rfl
    · rfl
    · exact invoke_above settings context (.leaveCall :: frames) _ callee arguments

/-- Going on with several expressions looks at no frame. -/
theorem gather_above (purpose : Gathering) (done : List Value) (todo : List Expr) :
    gather settings purpose done todo (frames ++ context) s =
      (gather settings purpose done todo frames s).above context := by
  cases todo with
  | cons e rest => rfl
  | nil =>
    cases purpose with
    | elements => rfl
    | arguments callee => exact apply_above settings context frames s callee done.reverse

/-- Looking a name up looks at no frame. -/
theorem lookup_above (name : String) :
    lookup name (frames ++ context) s = (lookup name frames s).above context := by
  unfold lookup
  split <;> rfl

/-- Reading a property looks at no frame. -/
theorem readProperty_above (o : InstanceId) (name : String) :
    readProperty o name (frames ++ context) s = (readProperty o name frames s).above context := by
  unfold readProperty
  split <;> rfl

/-- Reading a method of the parent looks at no frame. -/
theorem readSuper_above (name : String) :
    readSuper name (frames ++ context) s = (readSuper name frames s).above context := by
  unfold readSuper
  split
  · rfl
  · split
    · rfl
    · split <;> rfl

/-- Beginning an expression looks at no frame. -/
theorem evaluate_above (e : Expr) :
    evaluate settings e (frames ++ context) s = (evaluate settings e frames s).above context := by
  cases e with
  | list items => exact gather_above settings context frames s .elements [] items
  | «variable» name => exact lookup_above context frames s name
  | this => exact lookup_above context frames s thisName
  | super method => exact readSuper_above context frames s method
  | _ => rfl

/-- Beginning a statement looks at no frame. -/
theorem execute_above (st : Stmt) :
    execute st (frames ++ context) s = (execute st frames s).above context := by
  cases st with
  | varDecl name init => cases init <;> rfl
  | classDecl name parent methods =>
    cases parent with
    | none => rfl
    | some parent =>
      simp only [execute]
      split <;> rfl
  | returnValue value => cases value <;> rfl
  | _ => rfl

/-- Printing a line looks at no frame. -/
theorem printLine_above (line : String) :
    printLine line (frames ++ context) s = (printLine line frames s).above context := by
  unfold printLine
  split <;> rfl

/-- The innermost frame takes a value without a look at the others. -/
theorem resume_above (frame : Frame) (v : Value) :
    resume settings frame v (frames ++ context) s = (resume settings frame v frames s).above context := by
  cases frame with
  | callee arguments => exact gather_above settings context frames s (.arguments v) [] arguments
  | gather purpose done todo => exact gather_above settings context frames s purpose (v :: done) todo
  | propertyOwner property =>
    cases v with
    | instanceObject o => exact readProperty_above context frames s o property
    | _ => rfl
  | fieldOwner property value => cases v <;> rfl
  | elementOwner position => cases v <;> rfl
  | updateOwner position value => cases v <;> rfl
  | connective op right =>
    simp only [resume]
    split_ifs <;> rfl
  | assign target =>
    simp only [resume]
    split <;> rfl
  | updateValue sequence position =>
    simp only [resume]
    split <;> rfl
  | branch thenBranch elseBranch =>
    simp only [resume]
    split_ifs
    · rfl
    · cases elseBranch <;> rfl
  | loopTest test body =>
    simp only [resume]
    split_ifs <;> rfl
  | print => exact printLine_above context frames s (s.heap.text v)
  | statements rest => cases rest <;> rfl
  | _ => rfl

/-- The innermost frame takes any other completion without a look at the others. -/
theorem unwind_above (frame : Frame) (completion : Completion) :
    unwind frame completion (frames ++ context) s = (unwind frame completion frames s).above context := by
  cases frame with
  | loopBody test body => cases completion <;> rfl
  | leaveFunction outer => cases completion <;> rfl
  | _ => rfl

/-! ## Steps and runs -/

/-- A step of what is left to do above a context is the same step without the context. -/
theorem step_above {c : Config} (h : ¬c.IsFinal) :
    step settings (c.above context) = (step settings c).above context := by
  obtain ⟨focus, frames, s⟩ := c
  cases focus with
  | evaluate e => exact evaluate_above settings context frames s e
  | execute st => exact execute_above context frames s st
  | deliver completion =>
    cases frames with
    | nil => exact absurd ⟨completion, s, rfl⟩ h
    | cons frame frames =>
      cases completion with
      | value v => exact resume_above settings context frames s frame v
      | error e => exact unwind_above context frames s frame (.error e)
      | returned v => exact unwind_above context frames s frame (.returned v)
      | broke => exact unwind_above context frames s frame .broke

/-- The run of a configuration above a context, to the point where its completion is handed to the context. -/
inductive EndsAbove : Config → Completion → State → Prop
  /-- Nothing is left to do above the context. -/
  | arrived (completion : Completion) (s : State) : EndsAbove ⟨.deliver completion, context, s⟩ completion s
  /-- Something is left to do above the context. -/
  | step (c : Config) (completion : Completion) (s : State) (h : ¬c.IsFinal) :
    EndsAbove (step settings (c.above context)) completion s → EndsAbove (c.above context) completion s

/-- A run that ends without a context ends in every context, with the same completion and in the same state. -/
theorem endsAbove_of_advance {n : Nat} {c : Config} {completion : Completion} {s : State}
    (h : c.advance settings n = ⟨.deliver completion, [], s⟩) :
    EndsAbove settings context (c.above context) completion s := by
  induction n generalizing c with
  | zero =>
    have hc : c = ⟨.deliver completion, [], s⟩ := h
    rw [hc]
    exact .arrived completion s
  | succ n ih =>
    by_cases hfinal : c.IsFinal
    · obtain ⟨completion', s', rfl⟩ := hfinal
      rw [advance_final] at h
      rw [h]
      exact .arrived completion s
    · rw [advance_succ hfinal] at h
      refine .step c completion s hfinal ?_
      rw [step_above settings context hfinal]
      exact ih h

variable {settings context} in
/-- A run that ends in some context ends without one, with the same completion and in the same state. -/
theorem EndsAbove.exists_advance {c inner : Config} {completion : Completion} {s : State}
    (hrun : EndsAbove settings context c completion s) (hc : c = inner.above context) :
    ∃ n, inner.advance settings n = ⟨.deliver completion, [], s⟩ := by
  induction hrun generalizing inner with
  | arrived completion s =>
    obtain ⟨focus, frames, s'⟩ := inner
    simp only [above, Config.mk.injEq] at hc
    obtain ⟨rfl, hframes, rfl⟩ := hc
    have hnil : frames = [] := List.self_eq_append_left.1 hframes
    subst hnil
    exact ⟨0, rfl⟩
  | step c completion s hfinal hrun ih =>
    have hinner : c = inner := by
      obtain ⟨focus, frames, s'⟩ := c
      obtain ⟨focus', frames', s''⟩ := inner
      simp only [above, Config.mk.injEq] at hc
      obtain ⟨rfl, hframes, rfl⟩ := hc
      rw [List.append_cancel_right hframes]
    subst hinner
    obtain ⟨n, hn⟩ := ih (step_above settings context hfinal)
    exact ⟨n + 1, (advance_succ hfinal).trans hn⟩

/-! ## What is run -/

end Lox.Config

namespace Lox

/-- What is run in a context: a statement, an expression, or a call, be it checked for its arguments and depth or
not. -/
inductive Construct where
  | statement (st : Stmt)
  | expression (e : Expr)
  | call (callee : Value) (arguments : List Value)
  | invocation (callee : Value) (arguments : List Value)

namespace Construct

/-- Where the run of a construct starts. -/
def start (settings : Settings) (frames : List Frame) (s : State) : Construct → Config
  | statement st => ⟨.execute st, frames, s⟩
  | expression e => ⟨.evaluate e, frames, s⟩
  | call callee arguments => .apply settings callee arguments frames s
  | invocation callee arguments => .invoke settings callee arguments frames s

/-- The run of a construct in a context starts as it does without the context. -/
theorem start_above (settings : Settings) (context : List Frame) (s : State) (x : Construct) :
    x.start settings context s = (x.start settings [] s).above context := by
  cases x with
  | call callee arguments => exact Config.apply_above settings context [] s callee arguments
  | invocation callee arguments => exact Config.invoke_above settings context [] s callee arguments
  | _ => rfl

end Construct

end Lox
