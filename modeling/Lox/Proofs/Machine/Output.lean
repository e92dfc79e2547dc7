import Lox.Proofs.Machine.Context

/-!
# Output only grows

Nothing but a `print` prints, and what is printed stays (`step_output`). So a run has printed what was printed before
it, and then a line for each `print` that it completed, in order (`advance_lines`); and what it has printed at one time
is the beginning of what it has printed at any later time (`advance_output`). A line that the printer refuses is no
part of this. The program runs up to a line that waits and has it printed before it goes on; what it runs in between is
a part of the same run (`approach_eq_advance`).
-/

namespace Lox.Config

variable (settings : Settings) (frames : List Frame) (s : State)

/-! ## The parts of a step -/

/-- Running what can be called prints nothing yet. -/
theorem invoke_output (callee : Value) (arguments : List Value) :
    (invoke settings callee arguments frames s).state.output = s.output := by
  cases callee with
  | builtin b =>
    simp only [invoke]
    split <;> rfl
  | classObject c =>
    simp only [invoke]
    split <;> rfl
  | _ => rfl

/-- A call prints nothing yet. -/
theorem apply_output (callee : Value) (arguments : List Value) :
    (apply settings callee arguments frames s).state.output = s.output := by
  unfold apply
  split
  · rfl
  · split_ifs
    · rfl
    · rfl
    · exact invoke_output settings _ _ callee arguments

/-- Going on with several expressions prints nothing yet. -/
theorem gather_output (purpose : Gathering) (done : List Value) (todo : List Expr) :
    (gather settings purpose done todo frames s).state.output = s.output := by
  cases todo with
  | cons e rest => rfl
  | nil =>
    cases purpose with
    | elements => rfl
    | arguments callee => exact apply_output settings frames s callee done.reverse

/-- Looking a name up prints nothing. -/
theorem lookup_output (name : String) : (lookup name frames s).state.output = s.output := by
  unfold lookup
  split <;> rfl

/-- Reading a property prints nothing. -/
theorem readProperty_output (o : InstanceId) (name : String) :
    (readProperty o name frames s).state.output = s.output := by
  unfold readProperty
  split <;> rfl

/-- Reading a method of the parent prints nothing. -/
theorem readSuper_output (name : String) : (readSuper name frames s).state.output = s.output := by
  unfold readSuper
  split
  · rfl
  · split
    · rfl
    · split <;> rfl

/-- Beginning an expression prints nothing. -/
theorem evaluate_output (e : Expr) : (evaluate settings e frames s).state.output = s.output := by
  cases e with
  | list items => exact gather_output settings frames s .elements [] items
  | «variable» name => exact lookup_output frames s name
  | this => exact lookup_output frames s thisName
  | super method => exact readSuper_output frames s method
  | _ => rfl

/-- Beginning a statement prints nothing. -/
theorem execute_output (st : Stmt) : (execute st frames s).state.output = s.output := by
  cases st with
  | varDecl name init => cases init <;> rfl
  | classDecl name parent methods =>
    cases parent with
    | none => rfl
    | some parent =>
      simp only [execute]
      split <;> rfl
  | returnValue value => cases value <;> rfl
  | _ => rfl

/-- Handing a value to the innermost frame prints nothing, unless the frame is a `print`. -/
theorem resume_output (frame : Frame) (hframe : frame ≠ .print) (v : Value) :
    (resume settings frame v frames s).state.output = s.output := by
  cases frame with
  | print => exact absurd rfl hframe
  | callee arguments => exact gather_output settings frames s (.arguments v) [] arguments
  | gather purpose done todo => exact gather_output settings frames s purpose (v :: done) todo
  | propertyOwner property =>
    cases v with
    | instanceObject o => exact readProperty_output frames s o property
    | _ => rfl
  | fieldOwner property value => cases v <;> rfl
  | elementOwner position => cases v <;> rfl
  | updateOwner position value => cases v <;> rfl
  | connective op right =>
    simp only [resume]
    split_ifs <;> rfl
  | assign target =>
    simp only [resume]
    split <;> rfl
  | updateValue sequence position =>
    simp only [resume]
    split <;> rfl
  | branch thenBranch elseBranch =>
    simp only [resume]
    split_ifs
    · rfl
    · cases elseBranch <;> rfl
  | loopTest test body =>
    simp only [resume]
    split_ifs <;> rfl
  | statements rest => cases rest <;> rfl
  | _ => rfl

/-- Handing any other completion to the innermost frame prints nothing. -/
theorem unwind_output (frame : Frame) (completion : Completion) :
    (unwind frame completion frames s).state.output = s.output := by
  cases frame with
  | loopBody test body => cases completion <;> rfl
  | leaveFunction outer => cases completion <;> rfl
  | _ => rfl

/-! ## Lines -/

/-- The line that a step prints: the text of the value that a `print` has waited for, unless the printer refuses it. -/
def line? (c : Config) : Option String :=
  c.pending?.bind fun line => if (c.state.refusal? c.state.output).isSome then none else some line

/-- The lines that a run of so many steps prints, in the order in which they are printed. -/
def lines (settings : Settings) : Nat → Config → List String
  | 0, _ => []
  | n + 1, c => c.line?.toList ++ lines settings n (step settings c)

/-- Lines as they are printed: each with a line break. -/
def printed (lines : List String) : String :=
  String.join (lines.map (· ++ "\n"))

/-- Some lines and then others. -/
theorem printed_append (first others : List String) : printed (first ++ others) = printed first ++ printed others := by
  simp [printed]

/-- Nothing is printed where nothing is left to do. -/
theorem lines_final (n : Nat) (completion : Completion) : lines settings n ⟨.deliver completion, [], s⟩ = [] := by
  induction n with
  | zero => rfl
  | succ n ih =>
    have hline : line? ⟨.deliver completion, [], s⟩ = none := by cases completion <;> rfl
    rw [lines, hline]
    exact ih

/-! ## Steps and runs -/

/-- A step keeps what was printed, and prints its line if it has one. -/
theorem step_output (c : Config) :
    (step settings c).state.output = c.state.output ++ printed c.line?.toList := by
  have silent {output : String} (h : output = c.state.output) : output = c.state.output ++ printed [] := by
    rw [h]
    exact String.append_empty.symm
  obtain ⟨focus, frames, s⟩ := c
  cases focus with
  | evaluate e => exact silent (evaluate_output settings frames s e)
  | execute st => exact silent (execute_output frames s st)
  | deliver completion =>
    cases frames with
    | nil => cases completion <;> exact silent rfl
    | cons frame frames =>
      cases completion with
      | value v =>
        by_cases hframe : frame = .print
        · subst hframe
          cases hrefusal : s.refusal? s.output with
          | none => simp [step, resume, printLine, yield, line?, pending?, hrefusal, printed, String.append_assoc]
          | some e =>
            have hline : line? ⟨.deliver (.value v), .print :: frames, s⟩ = none := by
              simp [line?, pending?, hrefusal]
            rw [hline]
            simp only [step, resume, printLine, hrefusal]
            exact silent rfl
        · have hline : line? ⟨.deliver (.value v), frame :: frames, s⟩ = none := by
            cases frame with
            | print => exact absurd rfl hframe
            | _ => rfl
          rw [hline]
          exact silent (resume_output settings frames s frame hframe v)
      | error e => exact silent (unwind_output frames s frame (.error e))
      | returned v => exact silent (unwind_output frames s frame (.returned v))
      | broke => exact silent (unwind_output frames s frame .broke)

/-- A run keeps what was printed before it, and prints its lines. -/
theorem advance_lines (n : Nat) (c : Config) :
    (c.advance settings n).state.output = c.state.output ++ printed (c.lines settings n) := by
  induction n generalizing c with
  | zero => exact String.append_empty.symm
  | succ n ih =>
    by_cases hfinal : c.IsFinal
    · obtain ⟨completion, s, rfl⟩ := hfinal
      rw [advance_final, lines_final]
      exact String.append_empty.symm
    · rw [advance_succ hfinal, ih, step_output, lines, printed_append, String.append_assoc]

/-- A run that stops where a line waits is the beginning of a run that does not, and has printed nothing. -/
theorem approach_eq_advance (n : Nat) (c : Config) :
    ∃ k ≤ n, c.approach settings n = c.advance settings k ∧
      (c.approach settings n).state.output = c.state.output := by
  induction n generalizing c with
  | zero => exact ⟨0, Nat.le_refl 0, rfl, rfl⟩
  | succ n ih =>
    unfold approach
    split_ifs with hstop
    · exact ⟨0, Nat.zero_le _, rfl, rfl⟩
    · obtain ⟨hfinal, hpending⟩ : c.final? = none ∧ c.pending? = none := by simpa using hstop
      have hline : c.line? = none := by rw [line?, hpending]; rfl
      have hstep := step_output settings c
      rw [hline] at hstep
      obtain ⟨k, hk, hrun, houtput⟩ := ih (step settings c)
      have hrunning : ¬ c.IsFinal := by
        rintro ⟨completion, s, rfl⟩
        exact nomatch hfinal
      refine ⟨k + 1, Nat.succ_le_succ hk, ?_, ?_⟩
      · rw [hrun, advance_succ hrunning]
      · exact houtput.trans (hstep.trans String.append_empty)

/-- A run keeps what was printed before it. -/
theorem advance_output (n : Nat) (c : Config) :
    ∃ printed, (c.advance settings n).state.output = c.state.output ++ printed :=
  ⟨_, advance_lines settings n c⟩

end Lox.Config
