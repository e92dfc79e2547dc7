import Lox.Interpreter.Basic
import Lox.Proofs.Machine.Deeds
import Lox.Proofs.Machine.Output
import Lox.Proofs.Machine.Sequence

/-!
# Runs keep the shape of objects

What a step does to the heap is a matter of a few changes, one after another (`step_changes`). So every run keeps the
shape of the objects that were there when it began, at every moment and however it ends, and to what was printed it adds
the lines of the `print` statements that it completes (`run_keepsShape`).
-/

namespace Lox.Config

/-! ## Steps and runs -/

/-- A step is a matter of changes. -/
theorem step_changes (settings : Settings) (c : Config) : c.state.heap.Changes (step settings c).state.heap :=
  (step_becomes settings c).changes

/-- So is a run. -/
theorem advance_changes (settings : Settings) (n : Nat) (c : Config) :
    c.state.heap.Changes (c.advance settings n).state.heap :=
  advance_keeps (p := fun c' => c.state.heap.Changes c'.state.heap) (fun c' hc' => hc'.trans (step_changes settings c'))
    n (.refl c.state.heap)

/-- So is the start of a construct. -/
theorem start_changes (settings : Settings) (x : Construct) (s : State) :
    s.heap.Changes (x.start settings [] s).state.heap := by
  cases x with
  | statement st => exact .refl _
  | expression e => exact .refl _
  | call callee arguments => exact (apply_becomes settings callee arguments).changes
  | invocation callee arguments => exact (invoke_becomes settings callee arguments).changes

/-- Nothing is printed where a construct starts. -/
theorem start_output (settings : Settings) (x : Construct) (s : State) :
    (x.start settings [] s).state.output = s.output := by
  cases x with
  | statement st => rfl
  | expression e => rfl
  | call callee arguments => exact apply_output settings [] s callee arguments
  | invocation callee arguments => exact invoke_output settings [] s callee arguments

/-! ## What a construct keeps -/

/-- At every moment of the run of a construct, all objects that were there have kept their shape, and what was printed
before is followed by the lines of the run. -/
theorem advance_start_keepsShape (settings : Settings) (x : Construct) (s : State) (n : Nat) :
    s.heap.KeepsShape ((x.start settings [] s).advance settings n).state.heap ∧
      ((x.start settings [] s).advance settings n).state.output =
        s.output ++ printed ((x.start settings [] s).lines settings n) := by
  have hchanges := (start_changes settings x s).trans (advance_changes settings n _)
  exact ⟨hchanges.keepsShape, by rw [advance_lines, start_output]⟩

/-- A `print` takes values only. -/
theorem takesValues_print : TakesValues .print :=
  fun _ _ _ => rfl

/-- A `print` statement whose expression has a value completes with a line of the text of that value, or with an error
if the printer refuses it; otherwise it ends as the expression does. -/
theorem finishes_print {settings : Settings} {e : Expr} {s s' : State} {completion : Completion} :
    (⟨.execute (.print e), [], s⟩ : Config).Finishes settings completion s' ↔
      (∃ v s₁, (⟨.evaluate e, [], s⟩ : Config).Finishes settings (.value v) s₁ ∧
        (s₁.refusal? s₁.output = none ∧ completion = .value .nil ∧
            s' = { s₁ with output := s₁.output ++ s₁.heap.text v ++ "\n" } ∨
          ∃ refusal, s₁.refusal? s₁.output = some refusal ∧ completion = .error (.io refusal) ∧ s' = s₁)) ∨
      ((∀ v, completion ≠ .value v) ∧ (⟨.evaluate e, [], s⟩ : Config).Finishes settings completion s') := by
  have hprint (v : Value) (s₁ : State) :
      (⟨.deliver (.value v), [.print], s₁⟩ : Config).Finishes settings completion s' ↔
        s₁.refusal? s₁.output = none ∧ completion = .value .nil ∧
            s' = { s₁ with output := s₁.output ++ s₁.heap.text v ++ "\n" } ∨
          ∃ refusal, s₁.refusal? s₁.output = some refusal ∧ completion = .error (.io refusal) ∧ s' = s₁ := by
    rw [finishes_step not_isFinal_cons]
    simp only [step, resume, printLine]
    cases s₁.refusal? s₁.output with
    | none => simp [yield, finishes_final]
    | some refusal => simp [raise, finishes_final]
  rw [finishes_step (by rintro ⟨_, _, h⟩; simp at h)]
  refine (finishes_frame (c := ⟨.evaluate e, [], s⟩) takesValues_print).trans (or_congr_left ?_)
  exact exists_congr fun v => exists_congr fun s₁ => and_congr_right fun _ => hprint v s₁

/-- What is there keeps its shape. Whatever statement, expression or call is run in whatever context and state, and
however it ends, every scope that was there is there afterwards inside the same scope and with all names bound that it
bound, every sequence with its length, every function with its scope and declaration, every class with its parent and
its methods, and every instance with its class and all its fields. What was printed before is followed by the lines of
the run, and nothing else; a line is the text of the value for which a `print` has waited. So it is at every moment of
the run, too. A `print` completes with its line unless the printer refuses that, which is an error and changes nothing;
without a value it ends as its expression does. -/
theorem run_keepsShape (settings : Settings) :
    (∀ (context : List Frame) (s s' : State) (x : Construct) (completion : Completion),
      EndsAbove settings context (x.start settings context s) completion s' →
        s.heap.KeepsShape s'.heap ∧
        ∃ n, (x.start settings [] s).advance settings n = ⟨.deliver completion, [], s'⟩ ∧
          s'.output = s.output ++ printed ((x.start settings [] s).lines settings n)) ∧
    (∀ (n : Nat) (s : State) (x : Construct),
      s.heap.KeepsShape ((x.start settings [] s).advance settings n).state.heap ∧
      ((x.start settings [] s).advance settings n).state.output =
        s.output ++ printed ((x.start settings [] s).lines settings n)) ∧
    (∀ (e : Expr) (s s' : State) (completion : Completion),
      (⟨.execute (.print e), [], s⟩ : Config).Finishes settings completion s' ↔
        (∃ v s₁, (⟨.evaluate e, [], s⟩ : Config).Finishes settings (.value v) s₁ ∧
          (s₁.refusal? s₁.output = none ∧ completion = .value .nil ∧
              s' = { s₁ with output := s₁.output ++ s₁.heap.text v ++ "\n" } ∨
            ∃ refusal, s₁.refusal? s₁.output = some refusal ∧ completion = .error (.io refusal) ∧ s' = s₁)) ∨
        ((∀ v, completion ≠ .value v) ∧ (⟨.evaluate e, [], s⟩ : Config).Finishes settings completion s')) := by
  refine ⟨?_, fun n s x => advance_start_keepsShape settings x s n, fun e s s' completion => finishes_print⟩
  intro context s s' x completion hrun
  obtain ⟨n, hn⟩ := hrun.exists_advance (x.start_above settings context s)
  obtain ⟨hshape, houtput⟩ := advance_start_keepsShape settings x s n
  rw [hn] at hshape houtput
  exact ⟨hshape, n, hn, houtput⟩

/-- A block that binds a builtin's name in its own scope, prints, makes a sequence, and fails. -/
def printsAndFails : Stmt :=
  .block [.varDecl "len" none, .print (.variable "len"), .expression (.list [.literal .nil]),
    .print (.variable "missing")]

/-- The state in which `printsAndFails` ends. -/
def printsAndFailsEnd : State :=
  ((⟨.execute printsAndFails, [], (Interpreter.fresh ⟨3, fun _ => 0⟩).state⟩ : Config).advance ⟨3, fun _ => 0⟩ 30).state

/-- The one `print` that is completed has printed its line, and the builtins are bound in the global scope as before. -/
theorem run_keepsShape_printsAndFails :
    EndsAbove ⟨3, fun _ => 0⟩ [.discard]
        ((Construct.statement printsAndFails).start ⟨3, fun _ => 0⟩ [.discard]
          (Interpreter.fresh ⟨3, fun _ => 0⟩).state)
        (.error (.unresolvedName "missing")) printsAndFailsEnd ∧
      (Interpreter.fresh ⟨3, fun _ => 0⟩).state.heap.KeepsShape printsAndFailsEnd.heap ∧
      printsAndFailsEnd.output = "" ++ printed ["nil"] := by
  have hend : (⟨.execute printsAndFails, [], (Interpreter.fresh ⟨3, fun _ => 0⟩).state⟩ : Config).advance
      ⟨3, fun _ => 0⟩ 30 = ⟨.deliver (.error (.unresolvedName "missing")), [], printsAndFailsEnd⟩ := rfl
  have hrun := endsAbove_of_advance ⟨3, fun _ => 0⟩ [.discard] hend
  obtain ⟨hends, hmoments, -⟩ := run_keepsShape ⟨3, fun _ => 0⟩
  have houtput := (hmoments 30 (Interpreter.fresh ⟨3, fun _ => 0⟩).state (.statement printsAndFails)).2
  exact ⟨hrun, (hends _ _ _ (.statement printsAndFails) _ hrun).1, houtput⟩

end Lox.Config
