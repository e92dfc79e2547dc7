import Lox.Proofs.Machine.Alike
import Lox.Proofs.Machine.Transfers

/-!
# `for` loops

What a `for` loop does, said directly (`ForLoop.Ends`, `ForLoop.Shows`): one clause of it is run after another, all in
the same scope, and which one comes next depends on how the last one completed (`ForLoop.next`). The loop into which the
parser turns it opens a scope in every round that ends with an increment; it leads from clause to clause in the same way
(`ForLoop.At.leads`). Since nothing is declared in these scopes, the states stay alike, and so both end in the same way
and show the same, however many rounds there are (`ForLoop.At.finishes`, `ForLoop.At.shows_iff`).
-/

namespace Lox

open Config

variable {settings : Settings}

/-! ## What a loop does -/

/-- A `for` loop: what starts it, its test and its increment, each of which may be missing, and its body. -/
structure ForLoop where
  start : Option Stmt
  test : Option Expr
  increment : Option Expr
  body : Stmt

namespace ForLoop

/-- What a `for` loop is at. -/
inductive Clause where
  | start (st : Stmt)
  | test
  | body
  | increment (e : Expr)

/-- The first clause of a loop. -/
def first (l : ForLoop) : Clause :=
  match l.start with
  | some st => .start st
  | none => .test

/-- The test of a loop. One that is missing is true. -/
def condition (l : ForLoop) : Expr :=
  l.test.getD (.literal (.boolean true))

/-- What is run of a clause. -/
def focus (l : ForLoop) : Clause → Focus
  | .start st => .execute st
  | .test => .evaluate l.condition
  | .body => .execute l.body
  | .increment e => .evaluate e

/-- What comes after a clause that has completed: another clause, or the end of the loop. The test comes after what
starts the loop, and the body after a test that holds. After a body that runs to its end comes the increment, if there
is one, and then the test again. A break in the body ends the loop. Any other completion is that of the loop. -/
def next (l : ForLoop) : Clause → Completion → Clause ⊕ Completion
  | .start _, .value _ => .inl .test
  | .test, .value v => if v.isTruthy then .inl .body else .inr (.value .nil)
  | .body, .value _ =>
    match l.increment with
    | some e => .inl (.increment e)
    | none => .inl .test
  | .body, .broke => .inr (.value .nil)
  | .increment _, .value _ => .inl .test
  | _, completion => .inr completion

/-- From a clause on, a loop ends. -/
inductive Ends (settings : Settings) (l : ForLoop) : Clause → State → Completion → State → Prop
  | last {clause : Clause} {completion completion' : Completion} {s s' : State}
      (hend : (⟨l.focus clause, [], s⟩ : Config).Finishes settings completion s')
      (hnext : l.next clause completion = .inr completion') : Ends settings l clause s completion' s'
  | more {clause clause' : Clause} {completion completion' : Completion} {s s₁ s' : State}
      (hend : (⟨l.focus clause, [], s⟩ : Config).Finishes settings completion s₁)
      (hnext : l.next clause completion = .inl clause') (hrest : Ends settings l clause' s₁ completion' s') :
      Ends settings l clause s completion' s'

/-- From a clause on, a loop shows some output at some time. -/
inductive Shows (settings : Settings) (l : ForLoop) (output : String) : Clause → State → Prop
  | here {clause : Clause} {s : State} (hshows : (⟨l.focus clause, [], s⟩ : Config).Shows settings output) :
      Shows settings l output clause s
  | later {clause clause' : Clause} {completion : Completion} {s s₁ : State}
      (hend : (⟨l.focus clause, [], s⟩ : Config).Finishes settings completion s₁)
      (hnext : l.next clause completion = .inl clause') (hrest : Shows settings l output clause' s₁) :
      Shows settings l output clause s

/-- A whole loop ends: its clauses are run in a new scope, and then the scope is the one around the loop. -/
def Runs (settings : Settings) (l : ForLoop) (s : State) (completion : Completion) (s' : State) : Prop :=
  ∃ t, l.Ends settings l.first s.inNewScope completion t ∧ s' = { t with scope := s.scope }

/-- A whole loop shows some output at some time. -/
def RunShows (settings : Settings) (l : ForLoop) (s : State) (output : String) : Prop :=
  l.Shows settings output l.first s.inNewScope

/-! ## The loop of the machine -/

/-- The statement into which the parser turns a loop. -/
def statement (l : ForLoop) : Stmt :=
  .forLoop l.start l.test l.increment l.body

/-- A round of a loop: the body, in a block with the increment if there is one. -/
def round (l : ForLoop) : Stmt :=
  match l.increment with
  | some e => .block [l.body, .expression e]
  | none => l.body

/-- The frames above which a clause is run, where the scope around a round is given. What starts a loop is run before
it. -/
inductive At (l : ForLoop) (home : ScopeId) : Clause → List Frame → Prop
  | test : At l home .test [.loopTest l.condition l.round]
  | body (hincrement : l.increment = none) : At l home .body [.loopBody l.condition l.round]
  | bodyInBlock {e : Expr} (hincrement : l.increment = some e) :
    At l home .body [.statements [.expression e], .leaveBlock home, .loopBody l.condition l.round]
  | increment {e : Expr} (hincrement : l.increment = some e) :
    At l home (.increment e) [.discard, .statements [], .leaveBlock home, .loopBody l.condition l.round]

variable {l : ForLoop} {n : Nat} {home : ScopeId} {clause : Clause} {frames : List Frame} {s s' t t' : State}
  {completion : Completion} {output : String}

/-- No clause declares names where the body does not. -/
theorem At.not_declares (hat : l.At home clause frames) (hbody : ¬l.body.Declares) : ¬(l.focus clause).Declares := by
  cases hat with
  | body => exact hbody
  | bodyInBlock => exact hbody
  | _ => exact not_false

/-- An expression ends with no break. -/
theorem not_broke_of_finishes {e : Expr} (hend : (⟨.evaluate e, [], s⟩ : Config).Finishes settings completion t) :
    completion ≠ .broke := by
  obtain ⟨m, hm⟩ := hend
  have hstart : Contained True ⟨.evaluate e, [], s⟩ := ⟨trivial, trivial, fun f _ => f.declaration.isPlaced_true⟩
  have hfocus := (advance_contained settings m hstart).focus
  rw [hm] at hfocus
  rintro rfl
  exact hfocus

/-- A configuration leads to another clause, or to the end of a loop, in a state like another one. -/
def Goes (settings : Settings) (l : ForLoop) (n : Nat) (home : ScopeId) (s' : State) (c : Config)
    (goal : Clause ⊕ Completion) : Prop :=
  ∃ m t, t.Alike n home s' ∧
    match goal with
    | .inl clause => ∃ frames, l.At home clause frames ∧ homeScope frames t.scope = home ∧
        Leads settings (m + 1) c ⟨l.focus clause, frames, t⟩
    | .inr completion => Leads settings (m + 1) c ⟨.deliver completion, [], t⟩

/-- Where the test holds, the machine leads to the body. -/
theorem goes_body (hscope : s.scope = home) (halike : s.Alike n home s') {v : Value} (hholds : v.isTruthy = true) :
    Goes settings l n home s' ⟨.deliver (.value v), [.loopTest l.condition l.round], s⟩ (.inl .body) := by
  have hstep : step settings ⟨.deliver (.value v), [.loopTest l.condition l.round], s⟩ =
      ⟨.execute l.round, [.loopBody l.condition l.round], s⟩ := if_pos hholds
  cases hincrement : l.increment with
  | none =>
    have hround : l.round = l.body := by rw [round, hincrement]
    have hbegin : step settings ⟨.deliver (.value v), [.loopTest l.condition l.round], s⟩ =
        ⟨l.focus .body, [.loopBody l.condition l.round], s⟩ :=
      hstep.trans (congrArg (fun st => Config.mk (.execute st) [.loopBody l.condition l.round] s) hround)
    exact ⟨0, s, halike, _, .body hincrement, hscope, .step not_isFinal_cons (by rw [hbegin]) (hbegin ▸ .here _)⟩
  | some e =>
    have hround : l.round = .block [l.body, .expression e] := by rw [round, hincrement]
    have hbegin : step settings ⟨.deliver (.value v), [.loopTest l.condition l.round], s⟩ =
        ⟨.execute (.block [l.body, .expression e]), [.loopBody l.condition l.round], s⟩ :=
      hstep.trans (congrArg (fun st => Config.mk (.execute st) [.loopBody l.condition l.round] s) hround)
    have hblock : Leads settings 2 ⟨.execute (.block [l.body, .expression e]), [.loopBody l.condition l.round], s⟩
        ⟨l.focus .body, [.statements [.expression e], .leaveBlock s.scope, .loopBody l.condition l.round],
          s.inNewScope⟩ :=
      .step not_isFinal_cons rfl (.step not_isFinal_cons rfl (.here _))
    rw [hscope] at hblock
    exact ⟨2, s.inNewScope, halike.enter, _, .bodyInBlock hincrement, rfl,
      .step not_isFinal_cons (by rw [hbegin]) (hbegin ▸ hblock)⟩

/-- Where a clause has completed, the machine leads to what comes next. -/
theorem At.goes (hat : l.At home clause frames) (hhome : homeScope frames s.scope = home) (halike : s.Alike n home s')
    (hbroke : completion = .broke → clause = .body) :
    Goes settings l n home s' ⟨.deliver completion, frames, s⟩ (l.next clause completion) := by
  cases hat with
  | test =>
    cases completion with
    | value v =>
      by_cases hholds : v.isTruthy = true
      · have hnext : l.next .test (.value v) = .inl .body := if_pos hholds
        rw [hnext]
        exact goes_body hhome halike hholds
      · have hnext : l.next .test (.value v) = .inr (.value .nil) := if_neg hholds
        have hstep : step settings ⟨.deliver (.value v), [.loopTest l.condition l.round], s⟩ =
            ⟨.deliver (.value .nil), [], s⟩ := if_neg hholds
        rw [hnext]
        exact ⟨0, s, halike, .step not_isFinal_cons (by rw [hstep]) (hstep ▸ .here _)⟩
    | _ => exact ⟨0, s, halike, .step not_isFinal_cons rfl (.here _)⟩
  | body hincrement =>
    cases completion with
    | value v =>
      have hnext : l.next .body (.value v) = .inl .test := by simp only [next, hincrement]
      rw [hnext]
      exact ⟨0, s, halike, _, .test, hhome, .step not_isFinal_cons rfl (.here _)⟩
    | _ => exact ⟨0, s, halike, .step not_isFinal_cons rfl (.here _)⟩
  | @bodyInBlock e hincrement =>
    cases completion with
    | value v =>
      -- The increment is in the scope of the round. Any other completion leaves that scope, and then the round.
      have hnext : l.next .body (.value v) = .inl (.increment e) := by simp only [next, hincrement]
      rw [hnext]
      exact ⟨1, s, halike, _, .increment hincrement, rfl,
        .step not_isFinal_cons rfl (.step not_isFinal_cons rfl (.here _))⟩
    | _ =>
      exact ⟨2, _, halike.leave,
        .step not_isFinal_cons rfl (.step not_isFinal_cons rfl (.step not_isFinal_cons rfl (.here _)))⟩
  | increment hincrement =>
    cases completion with
    | value v =>
      exact ⟨3, _, halike.leave, _, .test, rfl, .step not_isFinal_cons rfl (.step not_isFinal_cons rfl
        (.step not_isFinal_cons rfl (.step not_isFinal_cons rfl (.here _))))⟩
    | broke => exact nomatch hbroke rfl
    | _ =>
      exact ⟨3, _, halike.leave, .step not_isFinal_cons rfl (.step not_isFinal_cons rfl
        (.step not_isFinal_cons rfl (.step not_isFinal_cons rfl (.here _))))⟩

/-- Only the body may end with a break. -/
theorem At.eq_body_of_broke (hat : l.At home clause frames)
    (hend : (⟨l.focus clause, [], s⟩ : Config).Finishes settings completion t) (hbroke : completion = .broke) :
    clause = .body := by
  cases hat with
  | test => exact absurd hbroke (not_broke_of_finishes hend)
  | increment => exact absurd hbroke (not_broke_of_finishes hend)
  | _ => rfl

/-! ## Runs of the loop -/

section

variable (hbody : ¬l.body.Declares)

include hbody

/-- Where a clause ends in the machine, it ends in the same way in a state like that of the machine, and the machine
leads to what comes next. -/
theorem At.clause_finishes (hat : l.At home clause frames) (hhome : homeScope frames s.scope = home)
    (halike : s.Alike n home s') (hend : (⟨l.focus clause, [], s⟩ : Config).Finishes settings completion t) :
    ∃ t', (⟨l.focus clause, [], s'⟩ : Config).Finishes settings completion t' ∧
      Goes settings l n home t' ⟨.deliver completion, frames, t⟩ (l.next clause completion) := by
  obtain ⟨t', hend', halike'⟩ := halike.exists_finishes (hat.not_declares hbody) hend
  have hstay : homeScope frames t.scope = home := by rw [State.scope_of_finishes hend, hhome]
  exact ⟨t', hend', hat.goes hstay halike' (hat.eq_body_of_broke hend)⟩

/-- And the other way round. -/
theorem At.clause_finishes_of (hat : l.At home clause frames) (hhome : homeScope frames s.scope = home)
    (halike : s.Alike n home s') (hend : (⟨l.focus clause, [], s'⟩ : Config).Finishes settings completion t') :
    ∃ t, (⟨l.focus clause, [], s⟩ : Config).Finishes settings completion t ∧
      Goes settings l n home t' ⟨.deliver completion, frames, t⟩ (l.next clause completion) := by
  obtain ⟨t, hend', -⟩ := halike.symm.exists_finishes (hat.not_declares hbody) hend
  obtain ⟨t'', hend'', hgoes⟩ := hat.clause_finishes hbody hhome halike hend'
  obtain ⟨-, rfl⟩ := hend''.unique hend
  exact ⟨t, hend', hgoes⟩

/-- On its way a clause shows the same in both states. -/
theorem At.clause_shows_iff (hat : l.At home clause frames) (halike : s.Alike n home s') :
    (⟨l.focus clause, [], s⟩ : Config).Shows settings output ↔
      (⟨l.focus clause, [], s'⟩ : Config).Shows settings output :=
  halike.shows_iff (.inl ⟨hat.not_declares hbody, rfl⟩) (.inl ⟨hat.not_declares hbody, rfl⟩)

/-- Where the machine ends, the loop ends in the same way in a state like that of the machine. -/
theorem At.ends_of_advance (m : Nat) (hat : l.At home clause frames) (hhome : homeScope frames s.scope = home)
    (halike : s.Alike n home s')
    (hend : (⟨l.focus clause, frames, s⟩ : Config).advance settings m = ⟨.deliver completion, [], t⟩) :
    ∃ t', l.Ends settings clause s' completion t' ∧ t.Alike n home t' := by
  -- The induction is on the steps that are left. Those to the next clause are one at least.
  induction m using Nat.strongRecOn generalizing clause frames s s' with
  | ind m ih =>
    rcases advance_above_cases settings frames ⟨l.focus clause, [], s⟩ m with
      ⟨hfinal, hrun⟩ | ⟨completion₁, t₁, j, hclause, hj, hrun⟩
    · exact absurd ⟨completion, t, hrun.symm.trans hend⟩ (not_isFinal_above frames hfinal)
    · obtain ⟨t₁', hclause', i, t₂, halike₂, hgoal⟩ := hat.clause_finishes hbody hhome halike ⟨m, hclause⟩
      -- What is left of the run starts where the clause has completed.
      have hrest := hrun.symm.trans hend
      cases hnext : l.next clause completion₁ with
      | inl clause' =>
        rw [hnext] at hgoal
        obtain ⟨frames', hat', hhome', hleads⟩ := hgoal
        obtain ⟨rest, hsteps, hend'⟩ := hleads.advance_eq hrest
        obtain ⟨t', hends, halike'⟩ := ih rest (by omega) hat' hhome' halike₂ hend'
        exact ⟨t', .more hclause' hnext hends, halike'⟩
      | inr completion' =>
        rw [hnext] at hgoal
        obtain ⟨rest, -, hend'⟩ := hgoal.advance_eq hrest
        obtain ⟨rfl, rfl⟩ := finishes_final.1 ⟨rest, hend'⟩
        exact ⟨t₁', .last hclause' hnext, halike₂⟩

/-- And the other way round. -/
theorem At.finishes_of_ends (hends : l.Ends settings clause s' completion t') (hat : l.At home clause frames)
    (hhome : homeScope frames s.scope = home) (halike : s.Alike n home s') :
    ∃ t, (⟨l.focus clause, frames, s⟩ : Config).Finishes settings completion t ∧ t.Alike n home t' := by
  induction hends generalizing frames s with
  | last hend hnext =>
    obtain ⟨t₁, hclause, i, t, halike', hgoal⟩ := hat.clause_finishes_of hbody hhome halike hend
    rw [hnext] at hgoal
    exact ⟨t, finishes_above.2 ⟨_, t₁, hclause, hgoal.finishes_iff.2 ⟨0, rfl⟩⟩, halike'⟩
  | more hend hnext hrest ih =>
    obtain ⟨t₁, hclause, i, t₂, halike', hgoal⟩ := hat.clause_finishes_of hbody hhome halike hend
    rw [hnext] at hgoal
    obtain ⟨frames', hat', hhome', hleads⟩ := hgoal
    obtain ⟨t, hfinishes, halike''⟩ := ih hat' hhome' halike'
    exact ⟨t, finishes_above.2 ⟨_, t₁, hclause, hleads.finishes_iff.2 hfinishes⟩, halike''⟩

/-- What the machine shows, the loop shows. -/
theorem At.shows_of_advance (m : Nat) (hat : l.At home clause frames) (hhome : homeScope frames s.scope = home)
    (halike : s.Alike n home s')
    (hshows : ((⟨l.focus clause, frames, s⟩ : Config).advance settings m).state.output = output) :
    l.Shows settings output clause s' := by
  induction m using Nat.strongRecOn generalizing clause frames s s' with
  | ind m ih =>
    have hhere (hshown : (⟨l.focus clause, [], s⟩ : Config).Shows settings output) :
        l.Shows settings output clause s' :=
      .here ((hat.clause_shows_iff hbody halike).1 hshown)
    rcases advance_above_cases settings frames ⟨l.focus clause, [], s⟩ m with
      ⟨-, hrun⟩ | ⟨completion₁, t₁, j, hclause, hj, hrun⟩
    · exact hhere ⟨m, (congrArg (fun c => c.state.output) hrun).symm.trans hshows⟩
    · obtain ⟨t₁', hclause', i, t₂, halike₂, hgoal⟩ := hat.clause_finishes hbody hhome halike ⟨m, hclause⟩
      have hrest := (congrArg (fun c => c.state.output) hrun).symm.trans hshows
      have hlast (houtput : t₁.output = output) : l.Shows settings output clause s' :=
        hhere (houtput ▸ Finishes.shows ⟨m, hclause⟩)
      cases hnext : l.next clause completion₁ with
      | inl clause' =>
        rw [hnext] at hgoal
        obtain ⟨frames', hat', hhome', hleads⟩ := hgoal
        rcases hleads.output_advance hrest with houtput | ⟨rest, hsteps, hshows'⟩
        · exact hlast houtput
        · exact .later hclause' hnext (ih rest (by omega) hat' hhome' halike₂ hshows')
      | inr completion' =>
        rw [hnext] at hgoal
        rcases hgoal.output_advance hrest with houtput | ⟨rest, -, hshows'⟩
        · exact hlast houtput
        · rw [advance_final] at hshows'
          exact hlast (hgoal.output_eq.symm.trans hshows')

/-- And the other way round. -/
theorem At.shows_of_shows (hshows : l.Shows settings output clause s') (hat : l.At home clause frames)
    (hhome : homeScope frames s.scope = home) (halike : s.Alike n home s') :
    (⟨l.focus clause, frames, s⟩ : Config).Shows settings output := by
  induction hshows generalizing frames s with
  | here hshows => exact shows_above.2 (.inl ((hat.clause_shows_iff hbody halike).2 hshows))
  | later hend hnext hrest ih =>
    obtain ⟨t₁, hclause, i, t₂, halike', hgoal⟩ := hat.clause_finishes_of hbody hhome halike hend
    rw [hnext] at hgoal
    obtain ⟨frames', hat', hhome', hleads⟩ := hgoal
    exact shows_above.2 (.inr ⟨_, t₁, hclause, hleads.shows_iff.2 (ih hat' hhome' halike')⟩)

end

/-! ## Whole loops -/

/-- The end of a loop has no value but `nil`. -/
theorem eq_nil_of_next {v : Value} (hnext : l.next clause completion = .inr (.value v)) : v = .nil := by
  unfold next at hnext
  split at hnext
  · cases hnext
  · split_ifs at hnext
    cases hnext
    rfl
  · split at hnext <;> cases hnext
  · cases hnext
    rfl
  · cases hnext
  · rename_i hstart htest hround _ hincrement
    obtain rfl := Sum.inr.inj hnext
    cases clause with
    | start st => exact (hstart st v rfl rfl).elim
    | test => exact (htest v rfl rfl).elim
    | body => exact (hround v rfl rfl).elim
    | increment e => exact (hincrement e v rfl rfl).elim

/-- A loop that runs to its end has the value `nil`. -/
theorem Ends.eq_nil {v : Value} (hends : l.Ends settings clause s completion s') (hv : completion = .value v) :
    v = .nil := by
  induction hends with
  | last hend hnext => exact eq_nil_of_next (hv ▸ hnext)
  | more hend hnext hrest ih => exact ih hv

/-- Where a block with the loop as its last statement ends, the scope around it is restored. -/
theorem leads_leave (hnil : ∀ v, completion = .value v → v = .nil) (outer : ScopeId) :
    Leads settings 2 ⟨.deliver completion, [.statements [], .leaveBlock outer], s⟩
      ⟨.deliver completion, [], { s with scope := outer }⟩ := by
  cases completion with
  | value v =>
    obtain rfl := hnil v rfl
    exact .step not_isFinal_cons rfl (.step not_isFinal_cons rfl (.here _))
  | _ => exact .step not_isFinal_cons rfl (.step not_isFinal_cons rfl (.here _))

/-- What starts a loop is run in a block with the rounds behind it. -/
theorem leads_start {st : Stmt} (hstart : l.start = some st) :
    Leads settings 2 ⟨.execute l.statement, [], s⟩
      ⟨.execute st, [.statements [.loop l.condition l.round], .leaveBlock s.scope], s.inNewScope⟩ := by
  have hblock : l.statement = .block [st, .loop l.condition l.round] := by
    obtain ⟨start, test, increment, body⟩ := l
    obtain rfl : start = some st := hstart
    rfl
  rw [hblock]
  exact .step (by rintro ⟨_, _, h⟩; cases h) rfl (.step not_isFinal_cons rfl (.here _))

/-- Without it, the rounds start at once. -/
theorem leads_test (hstart : l.start = none) :
    Leads settings 1 ⟨.execute l.statement, [], s⟩ ⟨l.focus .test, [.loopTest l.condition l.round], s⟩ := by
  have hloop : l.statement = .loop l.condition l.round := by
    obtain ⟨start, test, increment, body⟩ := l
    obtain rfl : start = none := hstart
    rfl
  rw [hloop]
  exact .step (by rintro ⟨_, _, h⟩; cases h) rfl (.here _)

/-- Behind what starts a loop the rounds are run. -/
theorem leads_rounds (l : ForLoop) (v : Value) (outer : ScopeId) :
    Leads settings 2 ⟨.deliver (.value v), [.statements [.loop l.condition l.round], .leaveBlock outer], s⟩
      ⟨l.focus .test, [.loopTest l.condition l.round, .statements [], .leaveBlock outer], s⟩ :=
  .step not_isFinal_cons rfl (.step not_isFinal_cons rfl (.here _))

/-- If what starts a loop does not run to its end, the loop ends with it. -/
theorem leads_skip (l : ForLoop) (hvalue : ∀ v, completion ≠ .value v) (outer : ScopeId) :
    Leads settings 2 ⟨.deliver completion, [.statements [.loop l.condition l.round], .leaveBlock outer], s⟩
      ⟨.deliver completion, [], { s with scope := outer }⟩ := by
  cases completion with
  | value v => exact absurd rfl (hvalue v)
  | _ => exact .step not_isFinal_cons rfl (.step not_isFinal_cons rfl (.here _))

/-- What is no value is the completion of the loop. -/
theorem next_start (hvalue : ∀ v, completion ≠ .value v) (st : Stmt) :
    l.next (.start st) completion = .inr completion := by
  cases completion with
  | value v => exact absurd rfl (hvalue v)
  | _ => rfl

/-- If a loop ends with what starts it, then with its completion, which is no value. -/
theorem eq_of_next_start {st : Stmt} {completion' : Completion}
    (hnext : l.next (.start st) completion = .inr completion') :
    (∀ v, completion ≠ .value v) ∧ completion' = completion := by
  cases completion with
  | value v => cases hnext
  | _ => exact ⟨nofun, (Sum.inr.inj hnext).symm⟩

/-- If a loop goes on behind what starts it, then with the test, and behind a value. -/
theorem eq_test_of_next_start {st : Stmt} (hnext : l.next (.start st) completion = .inl clause) :
    ∃ v, completion = .value v ∧ clause = .test := by
  cases completion with
  | value v => exact ⟨v, rfl, (Sum.inl.inj hnext).symm⟩
  | _ => cases hnext

/-- The state behind what starts a loop is like itself: no scope is hollow there. -/
theorem alike_started (hs : IsGrounded ⟨.deliver (.value .nil), [], s⟩) {focus : Focus}
    (hend : (⟨focus, [], s.inNewScope⟩ : Config).Finishes settings completion t) :
    t.Alike (s.heap.scopes.size + 1) t.scope t := by
  have hscope : t.scope = ⟨s.heap.scopes.size⟩ := State.scope_of_finishes hend
  have hsize : s.inNewScope.heap.scopes.size = s.heap.scopes.size + 1 := Heap.size_scopes_newScope
  obtain ⟨m, hm⟩ := hend
  have hgrounded : IsGrounded ⟨focus, [], s.inNewScope⟩ :=
    ⟨hs.heap.newScope hs.scope, hsize ▸ Nat.lt_succ_self _, List.forall_mem_nil _⟩
  have hconfined : Confined (fun _ => True) s.inNewScope.heap ⟨focus, [], s.inNewScope⟩ :=
    ⟨fun _ => trivial, trivial, fun _ _ => trivial, .of_eq rfl⟩
  have hgrounded' := advance_isGrounded settings m hgrounded
  have hgrows := (advance_confined settings m hconfined).heap.grows
  rw [hm] at hgrounded' hgrows
  have hyoung : t.scope.index < s.heap.scopes.size + 1 := hscope ▸ Nat.lt_succ_self _
  exact .refl ⟨hgrounded'.heap, hgrounded'.scope, List.forall_mem_nil _⟩ (hsize ▸ hgrows) hyoung

/-- A state is like the one in a new scope. -/
theorem alike_inNewScope (hs : IsGrounded ⟨.deliver (.value .nil), [], s⟩) :
    s.Alike s.heap.scopes.size s.scope s.inNewScope :=
  (State.Alike.refl hs (Nat.le_refl _) hs.scope).enter.symm

section

variable (hbody : ¬l.body.Declares)

include hbody

/-- The rounds have no value but `nil`. -/
theorem eq_nil_of_finishes (halike : s.Alike n s.scope s)
    (hend : (⟨l.focus .test, [.loopTest l.condition l.round], s⟩ : Config).Finishes settings completion t) :
    ∀ v, completion = .value v → v = .nil := by
  obtain ⟨m, hm⟩ := hend
  obtain ⟨t', hends, -⟩ := At.ends_of_advance hbody m .test rfl halike hm
  exact fun v => hends.eq_nil

/-- Behind what starts a loop, the block ends as the rounds do, in the scope around it. -/
theorem finishes_rounds_iff (halike : s.Alike n s.scope s) (v : Value) (outer : ScopeId) :
    (⟨.deliver (.value v), [.statements [.loop l.condition l.round], .leaveBlock outer], s⟩ : Config).Finishes settings
        completion t ↔
      ∃ t₁, (⟨l.focus .test, [.loopTest l.condition l.round], s⟩ : Config).Finishes settings completion t₁ ∧
        t = { t₁ with scope := outer } := by
  rw [(leads_rounds l v outer).finishes_iff]
  refine (finishes_above (c := ⟨l.focus .test, [.loopTest l.condition l.round], s⟩)).trans ⟨?_, ?_⟩
  · rintro ⟨completion₁, t₁, hrounds, hleave⟩
    rw [(leads_leave (eq_nil_of_finishes hbody halike hrounds) outer).finishes_iff, finishes_final] at hleave
    obtain ⟨rfl, rfl⟩ := hleave
    exact ⟨t₁, hrounds, rfl⟩
  · rintro ⟨t₁, hrounds, rfl⟩
    have hleave : Leads settings 2 _ _ := leads_leave (s := t₁) (eq_nil_of_finishes hbody halike hrounds) outer
    exact ⟨completion, t₁, hrounds, hleave.finishes_iff.2 ⟨0, rfl⟩⟩

/-- It shows what the rounds show. -/
theorem shows_rounds_iff (halike : s.Alike n s.scope s) (v : Value) (outer : ScopeId) :
    (⟨.deliver (.value v), [.statements [.loop l.condition l.round], .leaveBlock outer], s⟩ : Config).Shows settings
        output ↔
      (⟨l.focus .test, [.loopTest l.condition l.round], s⟩ : Config).Shows settings output := by
  rw [(leads_rounds l v outer).shows_iff]
  refine (shows_above (c := ⟨l.focus .test, [.loopTest l.condition l.round], s⟩)).trans ⟨?_, .inl⟩
  rintro (hshows | ⟨completion₁, t₁, hrounds, hleave⟩)
  · exact hshows
  · rw [(leads_leave (eq_nil_of_finishes hbody halike hrounds) outer).shows_iff, shows_final] at hleave
    obtain rfl : t₁.output = output := hleave
    exact hrounds.shows

variable (hs : IsGrounded ⟨.deliver (.value .nil), [], s⟩)

include hs

/-- Where the statement ends, the loop ends in the same way in a state like that of the statement. -/
theorem runs_of_finishes (hend : (⟨.execute l.statement, [], s⟩ : Config).Finishes settings completion t) :
    ∃ t', l.Runs settings s completion t' ∧ t.Alike s.heap.scopes.size s.scope t' := by
  cases hstart : l.start with
  | none =>
    have hfirst : l.first = .test := by rw [first, hstart]
    obtain ⟨m, hm⟩ := (leads_test hstart).finishes_iff.1 hend
    obtain ⟨t', hends, halike⟩ := At.ends_of_advance hbody m .test rfl (alike_inNewScope hs) hm
    exact ⟨_, ⟨t', hfirst ▸ hends, rfl⟩, halike.symm.leave.symm⟩
  | some st =>
    have hfirst : l.first = .start st := by rw [first, hstart]
    obtain ⟨completion₁, t₁, hstarted, hrest⟩ :=
      finishes_above (c := ⟨.execute st, [], s.inNewScope⟩).1 ((leads_start hstart).finishes_iff.1 hend)
    have halike₁ := alike_started hs hstarted
    by_cases hvalue : ∃ v, completion₁ = .value v
    · obtain ⟨v, rfl⟩ := hvalue
      obtain ⟨t₂, ⟨m, hm⟩, rfl⟩ := (finishes_rounds_iff hbody halike₁ v s.scope).1 hrest
      obtain ⟨t₂', hends, halike⟩ := At.ends_of_advance hbody m .test rfl halike₁ hm
      exact ⟨_, ⟨t₂', hfirst ▸ .more hstarted rfl hends, rfl⟩, halike.move (Nat.le_succ _) hs.scope⟩
    · rw [not_exists] at hvalue
      rw [(leads_skip l hvalue s.scope).finishes_iff, finishes_final] at hrest
      obtain ⟨rfl, rfl⟩ := hrest
      exact ⟨_, ⟨t₁, hfirst ▸ .last hstarted (next_start hvalue st), rfl⟩, halike₁.move (Nat.le_succ _) hs.scope⟩

/-- And the other way round. -/
theorem finishes_of_runs (hruns : l.Runs settings s completion t') :
    ∃ t, (⟨.execute l.statement, [], s⟩ : Config).Finishes settings completion t ∧
      t.Alike s.heap.scopes.size s.scope t' := by
  obtain ⟨t₁', hends, rfl⟩ := hruns
  cases hstart : l.start with
  | none =>
    have hfirst : l.first = .test := by rw [first, hstart]
    obtain ⟨t, hend, halike⟩ := At.finishes_of_ends hbody (hfirst ▸ hends) .test rfl (alike_inNewScope hs)
    exact ⟨t, (leads_test hstart).finishes_iff.2 hend, halike.symm.leave.symm⟩
  | some st =>
    have hfirst : l.first = .start st := by rw [first, hstart]
    rw [hfirst] at hends
    cases hends with
    | @last _ completion₁ _ _ _ hstarted hnext =>
      obtain ⟨hvalue, rfl⟩ := eq_of_next_start hnext
      have hskip : Leads settings 2 _ _ := leads_skip (s := t₁') l hvalue s.scope
      have hend := finishes_above.2 ⟨_, _, hstarted, hskip.finishes_iff.2 ⟨0, rfl⟩⟩
      exact ⟨_, (leads_start hstart).finishes_iff.2 hend, (alike_started hs hstarted).move (Nat.le_succ _) hs.scope⟩
    | @more _ clause' completion₁ _ _ t₁ _ hstarted hnext hrest =>
      obtain ⟨v, rfl, rfl⟩ := eq_test_of_next_start hnext
      have halike₁ := alike_started hs hstarted
      obtain ⟨t₂, hrounds, halike⟩ := At.finishes_of_ends hbody hrest .test rfl halike₁
      have hend := (finishes_rounds_iff hbody halike₁ v s.scope).2 ⟨t₂, hrounds, rfl⟩
      exact ⟨_, (leads_start hstart).finishes_iff.2 (finishes_above.2 ⟨_, t₁, hstarted, hend⟩),
        halike.move (Nat.le_succ _) hs.scope⟩

/-- The statement shows what the loop shows. -/
theorem shows_iff_runShows :
    (⟨.execute l.statement, [], s⟩ : Config).Shows settings output ↔ l.RunShows settings s output := by
  unfold RunShows
  cases hstart : l.start with
  | none =>
    have hfirst : l.first = .test := by rw [first, hstart]
    rw [(leads_test hstart).shows_iff, hfirst]
    constructor
    · rintro ⟨m, hm⟩
      exact At.shows_of_advance hbody m .test rfl (alike_inNewScope hs) hm
    · exact fun hshows => At.shows_of_shows hbody hshows .test rfl (alike_inNewScope hs)
  | some st =>
    have hfirst : l.first = .start st := by rw [first, hstart]
    rw [(leads_start hstart).shows_iff, hfirst]
    refine shows_above (c := ⟨.execute st, [], s.inNewScope⟩).trans ⟨?_, ?_⟩
    · rintro (hshows | ⟨completion₁, t₁, hstarted, hrest⟩)
      · exact .here hshows
      by_cases hvalue : ∃ v, completion₁ = .value v
      · obtain ⟨v, rfl⟩ := hvalue
        have halike₁ := alike_started hs hstarted
        obtain ⟨m, hm⟩ := (shows_rounds_iff hbody halike₁ v s.scope).1 hrest
        exact .later hstarted rfl (At.shows_of_advance hbody m .test rfl halike₁ hm)
      · rw [not_exists] at hvalue
        rw [(leads_skip l hvalue s.scope).shows_iff, shows_final] at hrest
        exact .here (hrest ▸ hstarted.shows)
    · intro hshows
      cases hshows with
      | here hshows => exact .inl hshows
      | @later _ clause' completion₁ _ t₁ hstarted hnext hrest =>
        obtain ⟨v, rfl, rfl⟩ := eq_test_of_next_start hnext
        have halike₁ := alike_started hs hstarted
        have hrounds := At.shows_of_shows hbody hrest .test rfl halike₁
        exact .inr ⟨_, t₁, hstarted, (shows_rounds_iff hbody halike₁ v s.scope).2 hrounds⟩

end

end ForLoop

end Lox
