import Lox.Proofs.Interpreter.Session
import Lox.Proofs.Machine.Output

/-!
# The limit of nested calls is a cut-off

Two machines that differ only in how many nested calls they allow make the same steps until the stricter one refuses a
call (`step_agrees`). From there on it only passes the error outwards and prints nothing (`advance_raise`). So a run
under the stricter limit either is the run under the other one, or it ends with the refusal and has printed what the
other run has printed by then (`advance_agrees`).
-/

namespace Lox

namespace Config

/-- Settings that differ at most in that the first allow fewer nested calls. -/
structure Stricter (strict lenient : Settings) : Prop where
  limit : strict.maxCallDepth ≤ lenient.maxCallDepth
  clock : strict.clock = lenient.clock

/-- Two machines in the state `s` go on alike, or the stricter one refuses a call there. -/
def Agrees (strict : Settings) (s : State) (c c' : Config) : Prop :=
  c = c' ∨ ∃ frames, c = raise (.stackOverflow strict.maxCallDepth) frames s

variable {strict lenient : Settings} (frames : List Frame) (s : State)

/-! ## The parts of a step -/

/-- What a call runs does not depend on the limit. -/
theorem invoke_eq_of_stricter (h : Stricter strict lenient) (callee : Value) (arguments : List Value) :
    invoke strict callee arguments frames s = invoke lenient callee arguments frames s := by
  cases callee with
  | builtin b => simp only [invoke, h.clock]
  | _ => rfl

/-- A call is made alike, or the stricter machine refuses it. -/
theorem apply_agrees (h : Stricter strict lenient) (callee : Value) (arguments : List Value) :
    Agrees strict s (apply strict callee arguments frames s) (apply lenient callee arguments frames s) := by
  have hlimit := h.limit
  unfold apply
  split
  · exact .inl rfl
  · split_ifs with harity hstrict hlenient hlenient
    · exact .inl rfl
    · exact .inr ⟨frames, rfl⟩
    · exact .inr ⟨frames, rfl⟩
    · omega
    · exact .inl (invoke_eq_of_stricter _ _ h callee arguments)

/-- Several expressions are gone on with alike, or the stricter machine refuses a call. -/
theorem gather_agrees (h : Stricter strict lenient) (purpose : Gathering) (done : List Value) (todo : List Expr) :
    Agrees strict s (gather strict purpose done todo frames s) (gather lenient purpose done todo frames s) := by
  cases todo with
  | cons e rest => exact .inl rfl
  | nil =>
    cases purpose with
    | elements => exact .inl rfl
    | arguments callee => exact apply_agrees frames s h callee done.reverse

/-- No expression begins with a call. -/
theorem evaluate_eq (e : Expr) : evaluate strict e frames s = evaluate lenient e frames s := by
  cases e with
  | list items => cases items <;> rfl
  | _ => rfl

/-- The innermost frame takes a value alike, or the stricter machine refuses a call. -/
theorem resume_agrees (h : Stricter strict lenient) (frame : Frame) (v : Value) :
    Agrees strict s (resume strict frame v frames s) (resume lenient frame v frames s) := by
  cases frame with
  | callee arguments => exact gather_agrees frames s h (.arguments v) [] arguments
  | gather purpose done todo => exact gather_agrees frames s h purpose (v :: done) todo
  | statements rest => cases rest <;> exact .inl rfl
  | _ => exact .inl rfl

/-! ## Steps and runs -/

/-- Two machines make the same step, or the stricter one refuses a call. -/
theorem step_agrees (h : Stricter strict lenient) (c : Config) :
    Agrees strict c.state (step strict c) (step lenient c) := by
  obtain ⟨focus, frames, s⟩ := c
  cases focus with
  | evaluate e => exact .inl (evaluate_eq frames s e)
  | execute st => exact .inl rfl
  | deliver completion =>
    cases frames with
    | nil => exact .inl rfl
    | cons frame frames =>
      cases completion with
      | value v => exact resume_agrees frames s h frame v
      | _ => exact .inl rfl

/-- No frame absorbs an error. -/
theorem unwind_error (frame : Frame) (e : RuntimeError) :
    ∃ s', unwind frame (.error e) frames s = raise e frames s' ∧ s'.output = s.output := by
  cases frame <;> exact ⟨_, rfl, rfl⟩

/-- An error passes outwards through all frames, and nothing more is printed. -/
theorem advance_raise (settings : Settings) (e : RuntimeError) (n : Nat) :
    ∃ frames' s', (raise e frames s).advance settings n = raise e frames' s' ∧ s'.output = s.output := by
  induction n generalizing frames s with
  | zero => exact ⟨frames, s, rfl, rfl⟩
  | succ n ih =>
    cases frames with
    | nil => exact ⟨[], s, rfl, rfl⟩
    | cons frame frames =>
      obtain ⟨s₁, hstep, hs₁⟩ := unwind_error frames s frame e
      obtain ⟨frames', s', hrest, hs'⟩ := ih frames s₁
      refine ⟨frames', s', ?_, hs'.trans hs₁⟩
      rw [← hrest, ← hstep]
      rfl

/-- Two runs are the same, or the stricter one fails with a refusal and has printed what the other one has printed at
some time. -/
theorem advance_agrees (h : Stricter strict lenient) (n : Nat) (c : Config) :
    c.advance strict n = c.advance lenient n ∨
      ∃ k frames s, c.advance strict n = raise (.stackOverflow strict.maxCallDepth) frames s ∧
        s.output = (c.advance lenient k).state.output := by
  induction n generalizing c with
  | zero => exact .inl rfl
  | succ n ih =>
    by_cases hfinal : c.IsFinal
    · obtain ⟨completion, s, rfl⟩ := hfinal
      exact .inl rfl
    · rw [advance_succ hfinal, advance_succ hfinal]
      rcases step_agrees h c with hstep | ⟨frames, hstep⟩
      · rw [hstep]
        -- The step is the same under both limits.
        rcases ih (step lenient c) with hsame | ⟨k, frames, s, hrefused, hs⟩
        · exact .inl hsame
        · refine .inr ⟨k + 1, frames, s, hrefused, ?_⟩
          rw [advance_succ hfinal]
          exact hs
      · -- The refusal is passed outwards while the other machine goes on; it has printed what was printed so far.
        obtain ⟨frames', s', hrest, hs'⟩ := advance_raise frames c.state strict _ n
        refine .inr ⟨0, frames', s', ?_, hs'⟩
        rw [hstep]
        exact hrest

end Config

namespace Interpreter

open Config

/-- The limit of nested calls is a cut-off. A run of a program under one limit that does not end with a stack overflow
is the run under every higher limit, with the same result and in the same state. What a run has printed that ends with
a stack overflow is the beginning of what the run under a higher limit prints: of all that it has printed from some
step on, and so at its end if it ends. -/
theorem depth_limit_cuts_off {limit limit' : Nat} (hlimit : limit ≤ limit') (clock : Nat → Float) (p : Program)
    (steps : Nat) {r : Except RuntimeError Value} {i : Interpreter}
    (hrun : (fresh ⟨limit, clock⟩).interpret steps p = some (r, i)) :
    ((∀ l, r ≠ .error (.stackOverflow l)) →
      (fresh ⟨limit', clock⟩).interpret steps p = some (r, { i with settings := ⟨limit', clock⟩ })) ∧
    (∀ l, r = .error (.stackOverflow l) →
      (∃ n, ∀ k, n ≤ k → ∃ printed,
        (((fresh ⟨limit', clock⟩).start p).advance ⟨limit', clock⟩ k).state.output = i.state.output ++ printed) ∧
      ∀ steps' r' i', (fresh ⟨limit', clock⟩).interpret steps' p = some (r', i') →
        ∃ printed, i'.state.output = i.state.output ++ printed) := by
  obtain ⟨completion, s, hend, hresult, rfl⟩ := complete_eq_some_iff.1 hrun
  have hstricter : Stricter ⟨limit, clock⟩ ⟨limit', clock⟩ := ⟨hlimit, rfl⟩
  generalize hc : (fresh ⟨limit', clock⟩).start p = c
  have hagrees := advance_agrees hstricter steps c
  have hend : c.advance ⟨limit, clock⟩ steps = ⟨.deliver completion, [], s⟩ := by rw [← hend, ← hc]; rfl
  rw [hend] at hagrees
  refine ⟨fun hr => ?_, fun l hl => ?_⟩
  · -- Without a refusal, the two runs are the same.
    rcases hagrees with hsame | ⟨k, frames, s', hrefused, -⟩
    · refine complete_eq_some_iff.2 ⟨completion, s, ?_, hresult, rfl⟩
      rw [hc]
      exact hsame.symm
    · injection hrefused with hfocus
      injection hfocus with hcompletion
      rw [hcompletion] at hresult
      exact absurd hresult.symm (hr limit)
  · -- At some step, the other run has printed just what this one has.
    obtain ⟨n, hn⟩ : ∃ n, (c.advance ⟨limit', clock⟩ n).state.output = s.output := by
      rcases hagrees with hsame | ⟨k, frames, s', hrefused, hs'⟩
      · exact ⟨steps, by rw [← hsame]⟩
      · injection hrefused with hfocus hframes hstate
        exact ⟨k, by rw [hstate, hs']⟩
    have hlater (k : Nat) (hk : n ≤ k) :
        ∃ printed, (c.advance ⟨limit', clock⟩ k).state.output = s.output ++ printed := by
      obtain ⟨printed, hprinted⟩ := advance_output ⟨limit', clock⟩ (k - n) (c.advance ⟨limit', clock⟩ n)
      rw [← advance_add, Nat.add_sub_cancel' hk, hn] at hprinted
      exact ⟨printed, hprinted⟩
    refine ⟨⟨n, hlater⟩, fun steps' r' i' hrun' => ?_⟩
    obtain ⟨completion', s', hend', -, rfl⟩ := complete_eq_some_iff.1 hrun'
    have hend' : c.advance ⟨limit', clock⟩ steps' = ⟨.deliver completion', [], s'⟩ := by rw [← hc]; exact hend'
    obtain ⟨printed, hprinted⟩ := hlater (steps' + n) (Nat.le_add_left n steps')
    rw [advance_add, hend', advance_final] at hprinted
    exact ⟨printed, hprinted⟩

/-- A program that prints, declares a function that calls itself, and calls it if `started` holds. -/
def printThenRecurse (started : Bool) : Program :=
  [.print (.literal .nil), .funDecl (.mk "f" [] [.expression (.call (.variable "f") [])]),
    .conditional (.literal (.boolean started)) (.expression (.call (.variable "f") [])) none]

/-- The interpreter after `printThenRecurse` where one call is allowed. -/
def afterRecursion (started : Bool) : Interpreter :=
  (fresh ⟨1, fun _ => 0⟩).atState
    (((fresh ⟨1, fun _ => 0⟩).start (printThenRecurse started)).advance ⟨1, fun _ => 0⟩ 40).state

/-- With one call allowed, the function's own call is refused; without any call, the limit makes no difference. -/
theorem depth_limit_cuts_off_printThenRecurse :
    ((fresh ⟨1, fun _ => 0⟩).interpret 40 (printThenRecurse true) =
        some (.error (.stackOverflow 1), afterRecursion true) ∧
      ∀ steps' r' i', (fresh ⟨2, fun _ => 0⟩).interpret steps' (printThenRecurse true) = some (r', i') →
        ∃ printed, i'.state.output = (afterRecursion true).state.output ++ printed) ∧
    (fresh ⟨1, fun _ => 0⟩).interpret 40 (printThenRecurse false) = some (.ok .nil, afterRecursion false) ∧
      (fresh ⟨2, fun _ => 0⟩).interpret 40 (printThenRecurse false) =
        some (.ok .nil, { afterRecursion false with settings := ⟨2, fun _ => 0⟩ }) := by
  have hrefused : (fresh ⟨1, fun _ => 0⟩).interpret 40 (printThenRecurse true) =
      some (.error (.stackOverflow 1), afterRecursion true) := rfl
  have hended : (fresh ⟨1, fun _ => 0⟩).interpret 40 (printThenRecurse false) =
      some (.ok .nil, afterRecursion false) := rfl
  have hlimit : 1 ≤ 2 := by decide
  exact ⟨⟨hrefused, ((depth_limit_cuts_off hlimit _ _ 40 hrefused).2 1 rfl).2⟩, hended,
    (depth_limit_cuts_off hlimit _ _ 40 hended).1 (by simp)⟩

end Interpreter

end Lox
