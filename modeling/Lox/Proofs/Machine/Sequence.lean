import Lox.Proofs.Machine.Context

/-!
# One run and then another

What a run in a context comes to, by what it comes to above the context and what the context makes of that: how it
finishes (`finishes_above`) and what it shows on the way (`shows_above`). Steps that print nothing change neither
(`Leads`). Statements one after another are runs in the context of those that follow (`finishes_statements_cons`,
`shows_statements_cons`).
-/

namespace Lox.Config

variable {settings : Settings} {context : List Frame} {c : Config} {completion completion' : Completion} {s s' : State}
  {output : String} {n : Nat}

/-- The run of a configuration ends, with a completion and in a state. -/
def Finishes (settings : Settings) (c : Config) (completion : Completion) (s : State) : Prop :=
  ∃ n, c.advance settings n = ⟨.deliver completion, [], s⟩

/-- At some time in the run of a configuration, this is what has been printed. -/
def Shows (settings : Settings) (c : Config) (output : String) : Prop :=
  ∃ n, (c.advance settings n).state.output = output

/-! ## Runs -/

/-- A run ends in one way only. -/
theorem Finishes.unique (h : c.Finishes settings completion s) (h' : c.Finishes settings completion' s') :
    completion = completion' ∧ s = s' := by
  obtain ⟨n, hn⟩ := h
  obtain ⟨n', hn'⟩ := h'
  have hsame : (⟨.deliver completion, [], s⟩ : Config) = ⟨.deliver completion', [], s'⟩ := by
    rw [← advance_final settings n', ← advance_final settings n completion', ← hn, ← hn', ← advance_add, ← advance_add,
      Nat.add_comm]
  simpa using hsame

/-- Where nothing is left to do, a run has ended. -/
theorem finishes_final :
    (⟨.deliver completion, [], s⟩ : Config).Finishes settings completion' s' ↔ completion' = completion ∧ s' = s := by
  constructor
  · rintro ⟨n, hn⟩
    rw [advance_final] at hn
    simp only [mk.injEq, Focus.deliver.injEq, true_and] at hn
    exact ⟨hn.1.symm, hn.2.symm⟩
  · rintro ⟨rfl, rfl⟩
    exact ⟨0, rfl⟩

/-- Where nothing is left to do, nothing more is shown. -/
theorem shows_final :
    (⟨.deliver completion, [], s⟩ : Config).Shows settings output ↔ s.output = output := by
  constructor
  · rintro ⟨n, hn⟩
    rw [advance_final] at hn
    exact hn
  · intro h
    exact ⟨0, h⟩

/-- What has been printed where a run ends is shown. -/
theorem Finishes.shows (h : c.Finishes settings completion s) : c.Shows settings s.output := by
  obtain ⟨n, hn⟩ := h
  exact ⟨n, by rw [hn]⟩

/-- A step does not change how a run ends. -/
theorem finishes_step (h : ¬c.IsFinal) :
    c.Finishes settings completion s ↔ (step settings c).Finishes settings completion s := by
  constructor
  · rintro ⟨n, hn⟩
    cases n with
    | zero => exact absurd ⟨completion, s, hn⟩ h
    | succ n => exact ⟨n, by rw [← advance_succ h, hn]⟩
  · rintro ⟨n, hn⟩
    exact ⟨n + 1, by rw [advance_succ h, hn]⟩

/-- Nor does it change what a run shows if it prints nothing. -/
theorem shows_step (h : ¬c.IsFinal) (hsilent : (step settings c).state.output = c.state.output) :
    c.Shows settings output ↔ (step settings c).Shows settings output := by
  constructor
  · rintro ⟨n, hn⟩
    cases n with
    | zero => exact ⟨0, hsilent.trans hn⟩
    | succ n => exact ⟨n, by rw [← advance_succ h, hn]⟩
  · rintro ⟨n, hn⟩
    exact ⟨n + 1, by rw [advance_succ h, hn]⟩

/-! ## Steps that print nothing -/

/-- A configuration leads to another in so many steps, and nothing is printed on the way. -/
inductive Leads (settings : Settings) : Nat → Config → Config → Prop
  | here (c : Config) : Leads settings 0 c c
  | step {n : Nat} {c c' : Config} (hfinal : ¬c.IsFinal) (hsilent : (step settings c).state.output = c.state.output)
      (hrest : Leads settings n (step settings c) c') : Leads settings (n + 1) c c'

variable {c' : Config} {m : Nat}

/-- A configuration ends as the one to which it leads. -/
theorem Leads.finishes_iff (h : Leads settings n c c') :
    c.Finishes settings completion s ↔ c'.Finishes settings completion s := by
  induction h with
  | here c => exact Iff.rfl
  | step hfinal hsilent hrest ih => exact (finishes_step hfinal).trans ih

/-- It shows what that one shows. -/
theorem Leads.shows_iff (h : Leads settings n c c') : c.Shows settings output ↔ c'.Shows settings output := by
  induction h with
  | here c => exact Iff.rfl
  | step hfinal hsilent hrest ih => exact (shows_step hfinal hsilent).trans ih

/-- Nothing has been printed on the way. -/
theorem Leads.output_eq (h : Leads settings n c c') : c'.state.output = c.state.output := by
  induction h with
  | here c => rfl
  | step hfinal hsilent hrest ih => exact ih.trans hsilent

/-- When a configuration has ended, so has the one to which it leads, which had fewer steps left. -/
theorem Leads.advance_eq (h : Leads settings n c c') (hend : c.advance settings m = ⟨.deliver completion, [], s⟩) :
    ∃ rest, m = n + rest ∧ c'.advance settings rest = ⟨.deliver completion, [], s⟩ := by
  induction h generalizing m with
  | here c => exact ⟨m, (Nat.zero_add m).symm, hend⟩
  | step hfinal hsilent hrest ih =>
    cases m with
    | zero => exact absurd ⟨completion, s, hend⟩ hfinal
    | succ m =>
      rw [advance_succ hfinal] at hend
      obtain ⟨rest, rfl, hrest⟩ := ih hend
      exact ⟨rest, by omega, hrest⟩

/-- What a configuration has printed at some time it has printed at once, or the one to which it leads has. -/
theorem Leads.output_advance (h : Leads settings n c c') (hshows : (c.advance settings m).state.output = output) :
    c.state.output = output ∨ ∃ rest, m = n + rest ∧ (c'.advance settings rest).state.output = output := by
  induction h generalizing m with
  | here c => exact .inr ⟨m, (Nat.zero_add m).symm, hshows⟩
  | step hfinal hsilent hrest ih =>
    cases m with
    | zero => exact .inl hshows
    | succ m =>
      rw [advance_succ hfinal] at hshows
      rcases ih hshows with hhere | ⟨rest, rfl, hrest⟩
      · exact .inl (hsilent.symm.trans hhere)
      · exact .inr ⟨rest, by omega, hrest⟩

/-! ## Runs in a context -/

/-- What has something left to do has it above a context too. -/
theorem not_isFinal_above (context : List Frame) (h : ¬c.IsFinal) : ¬(c.above context).IsFinal := by
  rintro ⟨completion, s, hc⟩
  obtain ⟨focus, frames, s'⟩ := c
  simp only [above, mk.injEq, List.append_eq_nil_iff] at hc
  obtain ⟨rfl, ⟨rfl, -⟩, rfl⟩ := hc
  exact h ⟨_, _, rfl⟩

/-- As long as something is left to do, a run above a context is the run without it. -/
theorem advance_above (context : List Frame) (h : ¬(c.advance settings n).IsFinal) :
    (c.above context).advance settings n = (c.advance settings n).above context := by
  induction n generalizing c with
  | zero => rfl
  | succ n ih =>
    have hfinal : ¬c.IsFinal := by
      rintro ⟨completion, s, rfl⟩
      exact h ⟨completion, s, advance_final settings (n + 1) completion s⟩
    rw [advance_succ hfinal] at h ⊢
    rw [advance_succ (not_isFinal_above context hfinal), step_above settings context hfinal, ih h]

/-- A run that ends hands its completion to the context, and does so no later. -/
theorem exists_advance_above (context : List Frame) (h : c.advance settings n = ⟨.deliver completion, [], s⟩) :
    ∃ k ≤ n, (c.above context).advance settings k = ⟨.deliver completion, context, s⟩ := by
  induction n generalizing c with
  | zero =>
    obtain rfl : c = _ := h
    exact ⟨0, Nat.le_refl 0, rfl⟩
  | succ n ih =>
    by_cases hfinal : c.IsFinal
    · obtain ⟨completion', s', rfl⟩ := hfinal
      rw [advance_final] at h
      rw [h]
      exact ⟨0, Nat.zero_le _, rfl⟩
    · rw [advance_succ hfinal] at h
      obtain ⟨k, hk, hreach⟩ := ih h
      refine ⟨k + 1, Nat.succ_le_succ hk, ?_⟩
      rw [advance_succ (not_isFinal_above context hfinal), step_above settings context hfinal, hreach]

/-- At any time, a run above a context is at a point of the run without it, or the context has been handed what that one
came to. -/
theorem advance_above_cases (settings : Settings) (context : List Frame) (c : Config) (n : Nat) :
    (¬(c.advance settings n).IsFinal ∧
        (c.above context).advance settings n = (c.advance settings n).above context) ∨
      ∃ completion s k, c.advance settings n = ⟨.deliver completion, [], s⟩ ∧ k ≤ n ∧
        (c.above context).advance settings n = (⟨.deliver completion, context, s⟩ : Config).advance settings k := by
  by_cases hfinal : (c.advance settings n).IsFinal
  · obtain ⟨completion, s, hend⟩ := hfinal
    obtain ⟨k, hk, hreach⟩ := exists_advance_above context hend
    refine .inr ⟨completion, s, n - k, hend, Nat.sub_le n k, ?_⟩
    rw [← hreach, ← advance_add, Nat.add_sub_cancel' hk]
  · exact .inl ⟨hfinal, advance_above context hfinal⟩

/-- A run above a context ends as the context does with what the run comes to. -/
theorem finishes_above : (c.above context).Finishes settings completion s ↔ ∃ completion' s',
    c.Finishes settings completion' s' ∧
      (⟨.deliver completion', context, s'⟩ : Config).Finishes settings completion s := by
  constructor
  · rintro ⟨n, hn⟩
    rcases advance_above_cases settings context c n with ⟨hfinal, hrun⟩ | ⟨completion', s', k, hend, -, hrest⟩
    · exact absurd ⟨completion, s, hrun.symm.trans hn⟩ (not_isFinal_above context hfinal)
    · exact ⟨completion', s', ⟨n, hend⟩, k, hrest.symm.trans hn⟩
  · rintro ⟨completion', s', ⟨n, hend⟩, m, hm⟩
    obtain ⟨k, -, hreach⟩ := exists_advance_above context hend
    exact ⟨k + m, by rw [advance_add, hreach, hm]⟩

/-- It shows what the run shows, and then what the context does. -/
theorem shows_above : (c.above context).Shows settings output ↔
    c.Shows settings output ∨ ∃ completion' s', c.Finishes settings completion' s' ∧
      (⟨.deliver completion', context, s'⟩ : Config).Shows settings output := by
  constructor
  · rintro ⟨n, hn⟩
    rcases advance_above_cases settings context c n with ⟨-, hrun⟩ | ⟨completion', s', k, hend, -, hrest⟩
    · rw [hrun] at hn
      exact .inl ⟨n, hn⟩
    · rw [hrest] at hn
      exact .inr ⟨completion', s', ⟨n, hend⟩, k, hn⟩
  · rintro (⟨n, hn⟩ | ⟨completion', s', ⟨n, hend⟩, m, hm⟩)
    · by_cases hfinal : (c.advance settings n).IsFinal
      · obtain ⟨completion', s', hend⟩ := hfinal
        obtain ⟨k, -, hreach⟩ := exists_advance_above context hend
        exact ⟨k, by rw [hreach, ← hn, hend]⟩
      · exact ⟨n, by rw [advance_above context hfinal]; exact hn⟩
    · obtain ⟨k, -, hreach⟩ := exists_advance_above context hend
      exact ⟨k + m, by rw [advance_add, hreach, hm]⟩

/-! ## Values and other completions -/

/-- A frame takes values only; any other completion passes. -/
def TakesValues (frame : Frame) : Prop :=
  ∀ completion s, (∀ v, completion ≠ .value v) → unwind frame completion [] s = ⟨.deliver completion, [], s⟩

variable {frame : Frame} {v : Value} {st : Stmt} {rest : List Stmt}

/-- The statements that follow take values only. -/
theorem takesValues_statements (rest : List Stmt) : TakesValues (.statements rest) :=
  fun _ _ _ => rfl

/-- An expression statement takes values only. -/
theorem takesValues_discard : TakesValues .discard :=
  fun _ _ _ => rfl

/-- A completion that passes a frame is what the run ends with. -/
theorem step_of_takesValues (hframe : TakesValues frame) (h : ∀ v, completion ≠ .value v) :
    step settings ⟨.deliver completion, [frame], s⟩ = ⟨.deliver completion, [], s⟩ := by
  cases completion with
  | value v => exact absurd rfl (h v)
  | _ => exact hframe _ s h

/-- A frame has something left to do. -/
theorem not_isFinal_cons {focus : Focus} {frames : List Frame} : ¬(⟨focus, frame :: frames, s⟩ : Config).IsFinal := by
  rintro ⟨completion, s, h⟩
  simp at h

/-- A run above a frame that takes values ends as the frame does with the value, or as it does by itself if not with a
value. -/
theorem finishes_frame (hframe : TakesValues frame) :
    (c.above [frame]).Finishes settings completion s ↔
      (∃ v s', c.Finishes settings (.value v) s' ∧
        (⟨.deliver (.value v), [frame], s'⟩ : Config).Finishes settings completion s) ∨
      ((∀ v, completion ≠ .value v) ∧ c.Finishes settings completion s) := by
  rw [finishes_above]
  constructor
  · rintro ⟨completion', s', hend, hrest⟩
    by_cases hvalue : ∃ v, completion' = .value v
    · obtain ⟨v, rfl⟩ := hvalue
      exact .inl ⟨v, s', hend, hrest⟩
    · rw [not_exists] at hvalue
      rw [finishes_step not_isFinal_cons, step_of_takesValues hframe hvalue, finishes_final] at hrest
      obtain ⟨rfl, rfl⟩ := hrest
      exact .inr ⟨hvalue, hend⟩
  · rintro (⟨v, s', hend, hrest⟩ | ⟨hvalue, hend⟩)
    · exact ⟨_, s', hend, hrest⟩
    · refine ⟨completion, s, hend, ?_⟩
      rw [finishes_step not_isFinal_cons, step_of_takesValues hframe hvalue, finishes_final]
      exact ⟨rfl, rfl⟩

/-- It shows what it shows by itself, and what the frame then does with the value. -/
theorem shows_frame (hframe : TakesValues frame) :
    (c.above [frame]).Shows settings output ↔ c.Shows settings output ∨ ∃ v s',
      c.Finishes settings (.value v) s' ∧ (⟨.deliver (.value v), [frame], s'⟩ : Config).Shows settings output := by
  rw [shows_above]
  constructor
  · rintro (hshows | ⟨completion', s', hend, hrest⟩)
    · exact .inl hshows
    · by_cases hvalue : ∃ v, completion' = .value v
      · obtain ⟨v, rfl⟩ := hvalue
        exact .inr ⟨v, s', hend, hrest⟩
      · -- Nothing is shown any more that is not shown where the run ends.
        rw [not_exists] at hvalue
        have hstep : step settings ⟨.deliver completion', [frame], s'⟩ = ⟨.deliver completion', [], s'⟩ :=
          step_of_takesValues hframe hvalue
        rw [shows_step not_isFinal_cons (by rw [hstep]), hstep, shows_final] at hrest
        obtain ⟨n, hn⟩ := hend
        exact .inl ⟨n, by rw [hn]; exact hrest⟩
  · rintro (hshows | ⟨v, s', hend, hrest⟩)
    · exact .inl hshows
    · exact .inr ⟨_, s', hend, hrest⟩

/-! ## Statements -/

/-- After the last statement nothing is left to do. -/
theorem finishes_statements_nil :
    (⟨.deliver (.value v), [.statements []], s⟩ : Config).Finishes settings completion s' ↔
      completion = .value .nil ∧ s' = s := by
  rw [finishes_step not_isFinal_cons]
  exact finishes_final

/-- After the last statement nothing more is shown. -/
theorem shows_statements_nil : (⟨.deliver (.value v), [.statements []], s⟩ : Config).Shows settings output ↔
    s.output = output := by
  rw [shows_step not_isFinal_cons rfl]
  exact shows_final

/-- Statements end as the others do behind the first one, or as the first one does if not with a value. -/
theorem finishes_statements_cons :
    (⟨.deliver (.value v), [.statements (st :: rest)], s⟩ : Config).Finishes settings completion s' ↔
      (∃ w s₁, (⟨.execute st, [], s⟩ : Config).Finishes settings (.value w) s₁ ∧
        (⟨.deliver (.value w), [.statements rest], s₁⟩ : Config).Finishes settings completion s') ∨
      ((∀ w, completion ≠ .value w) ∧ (⟨.execute st, [], s⟩ : Config).Finishes settings completion s') := by
  rw [finishes_step not_isFinal_cons]
  exact finishes_frame (c := ⟨.execute st, [], s⟩) (takesValues_statements rest)

/-- Statements show what the first one does and then what the others do. -/
theorem shows_statements_cons :
    (⟨.deliver (.value v), [.statements (st :: rest)], s⟩ : Config).Shows settings output ↔
      (⟨.execute st, [], s⟩ : Config).Shows settings output ∨
      ∃ w s₁, (⟨.execute st, [], s⟩ : Config).Finishes settings (.value w) s₁ ∧
        (⟨.deliver (.value w), [.statements rest], s₁⟩ : Config).Shows settings output := by
  rw [shows_step not_isFinal_cons rfl]
  exact shows_frame (c := ⟨.execute st, [], s⟩) (takesValues_statements rest)

/-- Which value a statement leaves does not matter to those that follow. -/
theorem step_statements (v : Value) (rest : List Stmt) (s : State) :
    step settings ⟨.deliver (.value v), [.statements rest], s⟩ =
      step settings ⟨.deliver (.value .nil), [.statements rest], s⟩ := by
  cases rest <;> rfl

/-- An expression statement ends as its expression does, but for the value. -/
theorem finishes_expression {e : Expr} :
    (⟨.execute (.expression e), [], s⟩ : Config).Finishes settings completion s' ↔
      (completion = .value .nil ∧ ∃ v, (⟨.evaluate e, [], s⟩ : Config).Finishes settings (.value v) s') ∨
      ((∀ v, completion ≠ .value v) ∧ (⟨.evaluate e, [], s⟩ : Config).Finishes settings completion s') := by
  have hdiscard (v : Value) (s₁ : State) :
      (⟨.deliver (.value v), [.discard], s₁⟩ : Config).Finishes settings completion s' ↔
        completion = .value .nil ∧ s' = s₁ := by
    rw [finishes_step not_isFinal_cons]
    exact finishes_final
  rw [finishes_step (by rintro ⟨_, _, h⟩; simp at h)]
  refine (finishes_frame (c := ⟨.evaluate e, [], s⟩) takesValues_discard).trans (or_congr_left ⟨?_, ?_⟩)
  · rintro ⟨v, s₁, hend, hrest⟩
    obtain ⟨hnil, rfl⟩ := (hdiscard v s₁).1 hrest
    exact ⟨hnil, v, hend⟩
  · rintro ⟨hnil, v, hend⟩
    exact ⟨v, s', hend, (hdiscard v s').2 ⟨hnil, rfl⟩⟩

/-- An expression statement shows what its expression does. -/
theorem shows_expression {e : Expr} :
    (⟨.execute (.expression e), [], s⟩ : Config).Shows settings output ↔
      (⟨.evaluate e, [], s⟩ : Config).Shows settings output := by
  rw [shows_step (by rintro ⟨_, _, h⟩; simp at h) rfl]
  refine (shows_frame (c := ⟨.evaluate e, [], s⟩) takesValues_discard).trans ⟨?_, .inl⟩
  rintro (hshows | ⟨v, s₁, ⟨n, hn⟩, hrest⟩)
  · exact hshows
  · rw [shows_step not_isFinal_cons rfl] at hrest
    exact ⟨n, by rw [hn]; exact shows_final.1 hrest⟩

end Lox.Config
