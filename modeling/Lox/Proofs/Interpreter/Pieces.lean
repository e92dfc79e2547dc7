import Lox.CommandLine.Prompt
import Lox.Proofs.Grammar.Lines
import Lox.Proofs.Interpreter.Session
import Lox.Proofs.Machine.Sequence

/-!
# Running in pieces

Texts that are programs may be run at once, joined by the ends of lines; or one by one in one session, up to the first
error; or statement by statement, as at the prompt. A `Runner` is a way to run things of a kind, and `Runner.each` runs
several of them one by one. Two ways are alike if they end alike from every interpreter and show the same on the way.
Programs run at once are alike to their statements run one by one (`program_alike`), from which it follows that running
in pieces is alike to running at once (`run_in_pieces`).
-/

namespace Lox

open Config

namespace Interpreter

/-! ## Ways to run something -/

/-- What a result means, its value apart. -/
def conclusion (result : Except RuntimeError Value) : Except RunError Unit :=
  (result.map fun _ => ()).mapError .runtime

/-- More steps make no difference to a run that ends. -/
theorem complete_mono {steps more : Nat} {i : Interpreter} {c : Config}
    {ended : Except RuntimeError Value × Interpreter} (h : i.complete steps c = some ended) (hmore : steps ≤ more) :
    i.complete more c = some ended := by
  obtain ⟨completion, s, hend, hresult, hstate⟩ := complete_eq_some_iff.1 h
  obtain ⟨others, rfl⟩ := Nat.exists_eq_add_of_le hmore
  refine complete_eq_some_iff.2 ⟨completion, s, ?_, hresult, hstate⟩
  rw [advance_add, hend, advance_final]

/-- A way to run things of a kind. -/
structure Runner (α : Type) where
  /-- How a run ends and where it leaves the interpreter, if so many steps suffice. -/
  run : Nat → Interpreter → α → Option (Except RunError Unit × Interpreter)
  /-- At some time in a run, this is what has been printed. -/
  Shows : Interpreter → α → String → Prop
  /-- More steps make no difference. -/
  run_mono : ∀ {steps more : Nat} {i : Interpreter} {x : α} {ended : Except RunError Unit × Interpreter},
    run steps i x = some ended → steps ≤ more → run more i x = some ended
  /-- What has been printed before a run shows at its start. -/
  shows_start : ∀ (i : Interpreter) (x : α), Shows i x i.state.output
  /-- What has been printed in a run shows at its end. -/
  shows_end : ∀ {steps : Nat} {i j : Interpreter} {x : α} {result : Except RunError Unit},
    run steps i x = some (result, j) → Shows i x j.state.output

namespace Runner

variable {α β γ : Type}

/-- A run ends with a result and leaves an interpreter. -/
def Ends (r : Runner α) (i : Interpreter) (x : α) (result : Except RunError Unit) (j : Interpreter) : Prop :=
  ∃ steps, r.run steps i x = some (result, j)

/-- Two runs end alike from every interpreter, and show the same. -/
structure Alike (r : Runner α) (x : α) (r' : Runner β) (y : β) : Prop where
  ends : ∀ i result j, r.Ends i x result j ↔ r'.Ends i y result j
  shows : ∀ i output, r.Shows i x output ↔ r'.Shows i y output

theorem Alike.symm {r : Runner α} {r' : Runner β} {x : α} {y : β} (h : r.Alike x r' y) : r'.Alike y r x :=
  ⟨fun i result j => (h.ends i result j).symm, fun i output => (h.shows i output).symm⟩

theorem Alike.trans {r : Runner α} {r' : Runner β} {r'' : Runner γ} {x : α} {y : β} {z : γ} (h : r.Alike x r' y)
    (h' : r'.Alike y r'' z) : r.Alike x r'' z :=
  ⟨fun i result j => (h.ends i result j).trans (h'.ends i result j),
    fun i output => (h.shows i output).trans (h'.shows i output)⟩

/-! ## One by one -/

/-- Runs things one by one up to the first error. -/
def runEach (r : Runner α) (steps : Nat) : Interpreter → List α → Option (Except RunError Unit × Interpreter)
  | i, [] => some (.ok (), i)
  | i, x :: rest =>
    match r.run steps i x with
    | some (.ok (), j) => r.runEach steps j rest
    | stopped => stopped

/-- At some time in a run of things one by one, this is what has been printed. -/
def ShowsEach (r : Runner α) (output : String) : Interpreter → List α → Prop
  | i, [] => i.state.output = output
  | i, x :: rest => r.Shows i x output ∨ ∃ j, r.Ends i x (.ok ()) j ∧ r.ShowsEach output j rest

variable {r : Runner α} {r' : Runner β} {steps more : Nat} {i j : Interpreter} {x : α} {xs ys : List α} {zs : List β}
  {result : Except RunError Unit} {output : String}

/-- More steps make no difference for several things either. -/
theorem runEach_mono {ended : Except RunError Unit × Interpreter} (h : r.runEach steps i xs = some ended)
    (hmore : steps ≤ more) : r.runEach more i xs = some ended := by
  induction xs generalizing i with
  | nil => exact h
  | cons x rest ih =>
    rw [runEach] at h ⊢
    cases hx : r.run steps i x with
    | none => rw [hx] at h; exact nomatch h
    | some ended' =>
      rw [r.run_mono hx hmore]
      rw [hx] at h
      obtain ⟨_ | _, j⟩ := ended'
      · exact h
      · exact ih h

/-- What has been printed before shows at the start. -/
theorem showsEach_start (r : Runner α) (i : Interpreter) (xs : List α) : r.ShowsEach i.state.output i xs := by
  cases xs with
  | nil => rfl
  | cons x rest => exact .inl (r.shows_start i x)

/-- What has been printed in the end shows there. -/
theorem showsEach_end (h : r.runEach steps i xs = some (result, j)) : r.ShowsEach j.state.output i xs := by
  induction xs generalizing i with
  | nil =>
    obtain ⟨-, rfl⟩ := Prod.mk.inj (Option.some.inj h)
    rfl
  | cons x rest ih =>
    rw [runEach] at h
    cases hx : r.run steps i x with
    | none => rw [hx] at h; exact nomatch h
    | some ended =>
      rw [hx] at h
      obtain ⟨e | _, k⟩ := ended
      · obtain ⟨-, rfl⟩ := Prod.mk.inj (Option.some.inj h)
        exact .inl (r.shows_end hx)
      · exact .inr ⟨k, ⟨steps, hx⟩, ih h⟩

/-- Several things, one by one. -/
def each (r : Runner α) : Runner (List α) where
  run := r.runEach
  Shows i xs output := r.ShowsEach output i xs
  run_mono := runEach_mono
  shows_start := r.showsEach_start
  shows_end := showsEach_end

/-- Nothing ends where it starts. -/
theorem ends_each_nil : r.each.Ends i [] result j ↔ result = .ok () ∧ j = i := by
  constructor
  · rintro ⟨steps, h⟩
    obtain ⟨rfl, rfl⟩ := Prod.mk.inj (Option.some.inj h)
    exact ⟨rfl, rfl⟩
  · rintro ⟨rfl, rfl⟩
    exact ⟨0, rfl⟩

/-- Several things end as the others do behind the first one, or as the first one does with an error. -/
theorem ends_each_cons : r.each.Ends i (x :: xs) result j ↔
    (∃ k, r.Ends i x (.ok ()) k ∧ r.each.Ends k xs result j) ∨
      ((∃ e, result = .error e) ∧ r.Ends i x result j) := by
  constructor
  · rintro ⟨steps, h⟩
    change r.runEach steps i (x :: xs) = _ at h
    rw [runEach] at h
    cases hx : r.run steps i x with
    | none => rw [hx] at h; exact nomatch h
    | some ended =>
      rw [hx] at h
      obtain ⟨e | _, k⟩ := ended
      · obtain ⟨rfl, rfl⟩ := Prod.mk.inj (Option.some.inj h)
        exact .inr ⟨⟨e, rfl⟩, steps, hx⟩
      · exact .inl ⟨k, ⟨steps, hx⟩, steps, h⟩
  · rintro (⟨k, ⟨steps, hx⟩, steps', hxs⟩ | ⟨⟨e, rfl⟩, steps, hx⟩)
    · refine ⟨max steps steps', ?_⟩
      show r.runEach (max steps steps') i (x :: xs) = _
      rw [runEach, r.run_mono hx (Nat.le_max_left _ _)]
      exact runEach_mono hxs (Nat.le_max_right _ _)
    · refine ⟨steps, ?_⟩
      show r.runEach steps i (x :: xs) = _
      rw [runEach, hx]

/-- Things that are alike, one by one, are alike. -/
theorem Alike.each (h : List.Forall₂ (fun x y => r.Alike x r' y) xs zs) : r.each.Alike xs r'.each zs := by
  induction h with
  | nil => exact ⟨fun i result j => ends_each_nil.trans ends_each_nil.symm, fun i output => Iff.rfl⟩
  | @cons x y xs zs hfirst _ ih =>
    refine ⟨fun i result j => ?_, fun i output => ?_⟩
    · rw [ends_each_cons, ends_each_cons]
      simp only [hfirst.ends, ih.ends]
    · exact or_congr (hfirst.shows i output)
        (exists_congr fun j => and_congr (hfirst.ends i (.ok ()) j) (ih.shows j output))

/-- Things and then others, one by one, end as the others do behind the first ones, or as these do with an error. -/
theorem ends_each_append : r.each.Ends i (xs ++ ys) result j ↔
    (∃ k, r.each.Ends i xs (.ok ()) k ∧ r.each.Ends k ys result j) ∨
      ((∃ e, result = .error e) ∧ r.each.Ends i xs result j) := by
  induction xs generalizing i with
  | nil =>
    constructor
    · intro h
      exact .inl ⟨i, ends_each_nil.2 ⟨rfl, rfl⟩, h⟩
    · rintro (⟨k, hk, h⟩ | ⟨⟨e, rfl⟩, h⟩)
      · obtain ⟨-, rfl⟩ := ends_each_nil.1 hk
        exact h
      · exact nomatch (ends_each_nil.1 h).1
  | cons x xs ih =>
    rw [List.cons_append, ends_each_cons]
    simp only [ih, ends_each_cons]
    constructor
    · rintro (⟨k, hx, ⟨k', hxs, hys⟩ | ⟨he, hxs⟩⟩ | ⟨he, hx⟩)
      · exact .inl ⟨k', .inl ⟨k, hx, hxs⟩, hys⟩
      · exact .inr ⟨he, .inl ⟨k, hx, hxs⟩⟩
      · exact .inr ⟨he, .inr ⟨he, hx⟩⟩
    · rintro (⟨k', ⟨k, hx, hxs⟩ | ⟨⟨e, he⟩, -⟩, hys⟩ | ⟨he, ⟨k, hx, hxs⟩ | ⟨-, hx⟩⟩)
      · exact .inl ⟨k, hx, .inl ⟨k', hxs, hys⟩⟩
      · exact nomatch he
      · exact .inl ⟨k, hx, .inr ⟨he, hxs⟩⟩
      · exact .inr ⟨he, hx⟩

/-- They show what the first ones show, and then what the others do. -/
theorem shows_each_append : r.each.Shows i (xs ++ ys) output ↔
    r.each.Shows i xs output ∨ ∃ k, r.each.Ends i xs (.ok ()) k ∧ r.each.Shows k ys output := by
  induction xs generalizing i with
  | nil =>
    constructor
    · intro h
      exact .inr ⟨i, ends_each_nil.2 ⟨rfl, rfl⟩, h⟩
    · rintro (rfl | ⟨k, hk, h⟩)
      · exact r.showsEach_start i ys
      · obtain ⟨-, rfl⟩ := ends_each_nil.1 hk
        exact h
  | cons x xs ih =>
    constructor
    · rintro (hx | ⟨k, hx, h⟩)
      · exact .inl (.inl hx)
      · rcases ih.1 h with hxs | ⟨k', hxs, hys⟩
        · exact .inl (.inr ⟨k, hx, hxs⟩)
        · exact .inr ⟨k', ends_each_cons.2 (.inl ⟨k, hx, hxs⟩), hys⟩
    · rintro ((hx | ⟨k, hx, hxs⟩) | ⟨k', hend, hys⟩)
      · exact .inl hx
      · exact .inr ⟨k, hx, ih.2 (.inl hxs)⟩
      · rcases ends_each_cons.1 hend with ⟨k, hx, hxs⟩ | ⟨⟨e, he⟩, -⟩
        · exact .inr ⟨k, hx, ih.2 (.inr ⟨k', hxs, hys⟩)⟩
        · exact nomatch he

/-- Several lists of things, list by list, are alike to all the things one by one. -/
theorem each_flatten (r : Runner α) (xss : List (List α)) : r.each.each.Alike xss r.each xss.flatten := by
  induction xss with
  | nil => exact ⟨fun i result j => ends_each_nil.trans ends_each_nil.symm, fun i output => Iff.rfl⟩
  | cons xs xss ih =>
    refine ⟨fun i result j => ?_, fun i output => ?_⟩
    · rw [ends_each_cons, List.flatten_cons, ends_each_append]
      simp only [ih.ends]
    · rw [List.flatten_cons, shows_each_append]
      exact or_congr_right (exists_congr fun k => and_congr_right fun _ => ih.shows k output)

/-- One thing, one by one, is alike to itself. -/
theorem each_singleton (r : Runner α) (x : α) : r.each.Alike [x] r x := by
  refine ⟨fun i result j => ?_, fun i output => ⟨?_, .inl⟩⟩
  · rw [ends_each_cons]
    simp only [ends_each_nil]
    constructor
    · rintro (⟨k, hx, rfl, rfl⟩ | ⟨-, hx⟩) <;> exact hx
    · intro hx
      cases result with
      | ok u => exact .inl ⟨j, hx, rfl, rfl⟩
      | error e => exact .inr ⟨⟨e, rfl⟩, hx⟩
  · rintro (hx | ⟨j, ⟨steps, hend⟩, rfl⟩)
    · exact hx
    · exact r.shows_end hend

/-! ## Runs of the machine -/

/-- Things are run by the machine, each from where it starts. -/
def starting (start : Interpreter → α → Config) (hstart : ∀ i x, (start i x).state = i.state) : Runner α where
  run steps i x := (i.complete steps (start i x)).map fun (result, j) => (conclusion result, j)
  Shows i x output := (start i x).Shows i.settings output
  run_mono := by
    intro steps more i x ended h hmore
    obtain ⟨ended', hend, rfl⟩ := Option.map_eq_some_iff.1 h
    rw [complete_mono hend hmore]
    rfl
  shows_start := by
    intro i x
    exact ⟨0, by rw [← hstart i x]; rfl⟩
  shows_end := by
    intro steps i j x result h
    obtain ⟨ended', hcomplete, hended⟩ := Option.map_eq_some_iff.1 h
    obtain ⟨completion, s, hend, -, hs⟩ := complete_eq_some_iff.1 hcomplete
    obtain ⟨-, rfl⟩ := Prod.mk.inj hended
    rw [← hs]
    exact ⟨steps, by rw [hend]; rfl⟩

/-- What is run by the machine ends as the machine does. -/
theorem ends_starting {start : Interpreter → α → Config} {hstart : ∀ i x, (start i x).state = i.state} :
    (starting start hstart).Ends i x result j ↔ ∃ completion s,
      (start i x).Finishes i.settings completion s ∧ conclusion completion.result = result ∧ i.atState s = j := by
  constructor
  · rintro ⟨steps, h⟩
    obtain ⟨ended', hcomplete, hended⟩ := Option.map_eq_some_iff.1 h
    obtain ⟨completion, s, hend, hresult, hs⟩ := complete_eq_some_iff.1 hcomplete
    obtain ⟨rfl, rfl⟩ := Prod.mk.inj hended
    exact ⟨completion, s, ⟨steps, hend⟩, by rw [hresult], hs⟩
  · rintro ⟨completion, s, ⟨steps, hend⟩, rfl, rfl⟩
    refine ⟨steps, Option.map_eq_some_iff.2 ⟨_, complete_eq_some_iff.2 ⟨completion, s, hend, rfl, rfl⟩, rfl⟩⟩

/-- Programs, each at once. -/
def program : Runner Program :=
  starting start fun _ _ => rfl

/-- Single statements. -/
def statement : Runner Stmt :=
  starting startOne fun _ st => by cases st <;> rfl

variable {p : Program} {st : Stmt}

/-- A run ends without an error just if it completes with a value. -/
theorem conclusion_eq_ok_iff {completion : Completion} :
    conclusion completion.result = .ok () ↔ ∃ v, completion = .value v := by
  cases completion with
  | value v => exact ⟨fun _ => ⟨v, rfl⟩, fun _ => rfl⟩
  | _ => exact ⟨nofun, nofun⟩

/-- A statement of its own ends as it does among others. -/
theorem ends_statement : statement.Ends i st result j ↔ ∃ completion s,
    (⟨.execute st, [], i.state⟩ : Config).Finishes i.settings completion s ∧
      conclusion completion.result = result ∧ i.atState s = j := by
  cases st with
  | expression e =>
    rw [statement, ends_starting]
    simp only [finishes_expression]
    constructor
    · rintro ⟨completion, s, hend, rfl, rfl⟩
      by_cases hvalue : ∃ v, completion = .value v
      · obtain ⟨v, rfl⟩ := hvalue
        exact ⟨.value .nil, s, .inl ⟨rfl, v, hend⟩, rfl, rfl⟩
      · exact ⟨completion, s, .inr ⟨not_exists.1 hvalue, hend⟩, rfl, rfl⟩
    · rintro ⟨completion, s, ⟨rfl, v, hend⟩ | ⟨-, hend⟩, rfl, rfl⟩
      · exact ⟨.value v, s, hend, rfl, rfl⟩
      · exact ⟨completion, s, hend, rfl, rfl⟩
  | _ => exact ends_starting

/-- It shows what it does among others. -/
theorem shows_statement : statement.Shows i st output ↔
    (⟨.execute st, [], i.state⟩ : Config).Shows i.settings output := by
  cases st with
  | expression e => exact shows_expression.symm
  | _ => exact Iff.rfl

/-- Which value the last statement left does not matter to those that follow. -/
theorem ends_program_of_value (v : Value) : program.Ends i p result j ↔ ∃ completion s,
    (⟨.deliver (.value v), [.statements p], i.state⟩ : Config).Finishes i.settings completion s ∧
      conclusion completion.result = result ∧ i.atState s = j := by
  refine ends_starting.trans ?_
  simp only [start, finishes_step not_isFinal_cons, step_statements v]

/-- What a program shows does not depend on it either. -/
theorem shows_program_of_value (v : Value) : program.Shows i p output ↔
    (⟨.deliver (.value v), [.statements p], i.state⟩ : Config).Shows i.settings output := by
  have hsilent (v : Value) : (Config.step i.settings ⟨.deliver (.value v), [.statements p], i.state⟩).state.output =
      i.state.output := by
    cases p <;> rfl
  refine (shows_step not_isFinal_cons (hsilent .nil)).trans ?_
  rw [shows_step not_isFinal_cons (hsilent v), step_statements v]

/-- A program ends as its other statements do behind the first one, or as the first one does with an error. -/
theorem ends_program_cons : program.Ends i (st :: p) result j ↔
    (∃ k, statement.Ends i st (.ok ()) k ∧ program.Ends k p result j) ∨
      ((∃ e, result = .error e) ∧ statement.Ends i st result j) := by
  rw [ends_program_of_value .nil]
  simp only [finishes_statements_cons]
  constructor
  · rintro ⟨completion, s, ⟨w, s₁, hfirst, hothers⟩ | ⟨hvalue, hfirst⟩, rfl, rfl⟩
    · exact .inl ⟨i.atState s₁, ends_statement.2 ⟨_, s₁, hfirst, rfl, rfl⟩,
        (ends_program_of_value w).2 ⟨completion, s, hothers, rfl, rfl⟩⟩
    · refine .inr ⟨?_, ends_statement.2 ⟨completion, s, hfirst, rfl, rfl⟩⟩
      cases hresult : conclusion completion.result with
      | ok u =>
        obtain ⟨v, rfl⟩ := conclusion_eq_ok_iff.1 hresult
        exact absurd rfl (hvalue v)
      | error e => exact ⟨e, rfl⟩
  · rintro (⟨k, hfirst, hothers⟩ | ⟨⟨e, rfl⟩, hfirst⟩)
    · obtain ⟨completion, s₁, hend, hresult, rfl⟩ := ends_statement.1 hfirst
      obtain ⟨w, rfl⟩ := conclusion_eq_ok_iff.1 hresult
      obtain ⟨completion, s, hend', rfl, rfl⟩ := (ends_program_of_value w).1 hothers
      exact ⟨completion, s, .inl ⟨w, s₁, hend, hend'⟩, rfl, rfl⟩
    · obtain ⟨completion, s, hend, hresult, rfl⟩ := ends_statement.1 hfirst
      refine ⟨completion, s, .inr ⟨?_, hend⟩, hresult, rfl⟩
      rintro w rfl
      exact nomatch hresult

/-- A program shows what its first statement does and then what the others do. -/
theorem shows_program_cons : program.Shows i (st :: p) output ↔
    statement.Shows i st output ∨ ∃ k, statement.Ends i st (.ok ()) k ∧ program.Shows k p output := by
  rw [shows_program_of_value .nil, shows_statements_cons, shows_statement]
  refine or_congr_right ⟨?_, ?_⟩
  · rintro ⟨w, s, hend, hshows⟩
    exact ⟨i.atState s, ends_statement.2 ⟨_, s, hend, rfl, rfl⟩, (shows_program_of_value w).2 hshows⟩
  · rintro ⟨k, hfirst, hshows⟩
    obtain ⟨completion, s, hend, hresult, rfl⟩ := ends_statement.1 hfirst
    obtain ⟨w, rfl⟩ := conclusion_eq_ok_iff.1 hresult
    exact ⟨w, s, hend, (shows_program_of_value w).1 hshows⟩

/-- A program at once is alike to its statements one by one. -/
theorem program_alike (p : Program) : program.Alike p statement.each p := by
  induction p with
  | nil =>
    refine ⟨fun i result j => ?_, fun i output => ?_⟩
    · rw [ends_program_of_value .nil, ends_each_nil]
      simp only [finishes_statements_nil]
      constructor
      · rintro ⟨completion, s, ⟨rfl, rfl⟩, rfl, rfl⟩
        exact ⟨rfl, rfl⟩
      · rintro ⟨rfl, rfl⟩
        exact ⟨_, _, ⟨rfl, rfl⟩, rfl, rfl⟩
    · rw [shows_program_of_value .nil, shows_statements_nil]
      exact Iff.rfl
  | cons st p ih =>
    refine ⟨fun i result j => ?_, fun i output => ?_⟩
    · rw [ends_program_cons, ends_each_cons]
      simp only [ih.ends]
    · rw [shows_program_cons]
      exact or_congr_right (exists_congr fun k => and_congr_right fun _ => ih.shows k output)

/-- What the answers to statements come to: the error if there is one. -/
def settled : List (Except RuntimeError Value) → Except RunError Unit
  | [] => .ok ()
  | .ok _ :: answers => settled answers
  | .error e :: _ => .error (.runtime e)

/-- Statements that are answered one by one are run one by one. -/
theorem interpretEach_eq (steps : Nat) (i : Interpreter) (p : Program) :
    ((i.interpretEach steps p).map fun (answers, j) => (settled answers, j)) = statement.each.run steps i p := by
  induction p generalizing i with
  | nil => rfl
  | cons st p ih =>
    show _ = statement.runEach steps i (st :: p)
    have hfirst : statement.run steps i st =
        (i.interpretOne steps st).map fun (result, j) => (conclusion result, j) := rfl
    rw [interpretEach, runEach, hfirst]
    cases i.interpretOne steps st with
    | none => rfl
    | some ended =>
      obtain ⟨e | v, j⟩ := ended
      · rfl
      · show Option.map _ (Option.map _ (j.interpretEach steps p)) = statement.runEach steps j p
        rw [Option.map_map]
        exact ih j

/-- Programs, each by a call for every one of its statements. -/
def answers : Runner Program where
  run steps i p := (i.interpretEach steps p).map fun (answers, j) => (settled answers, j)
  Shows := statement.each.Shows
  run_mono := by
    intro steps more i p ended h hmore
    rw [interpretEach_eq] at h ⊢
    exact statement.each.run_mono h hmore
  shows_start := statement.each.shows_start
  shows_end := by
    intro steps i j p result h
    rw [interpretEach_eq] at h
    exact statement.each.shows_end h

/-- These are the statements one by one. -/
theorem answers_alike (p : Program) : answers.Alike p statement.each p := by
  refine ⟨fun i result j => exists_congr fun steps => ?_, fun i output => Iff.rfl⟩
  rw [← interpretEach_eq]
  exact Iff.rfl

/-- Where the prompt starts a line that holds a program. -/
def lineStart (i : Interpreter) : Program → Config
  | [.expression e] => i.startOne (.expression e)
  | p => i.start p

/-- Programs, each as the prompt runs it: a single expression for its value, anything else at once. -/
def line : Runner Program :=
  starting lineStart fun i p => by unfold lineStart; split <;> rfl

/-- These are the programs at once. -/
theorem line_alike (p : Program) : line.Alike p program p := by
  by_cases hlone : ∃ e, p = [.expression e]
  · obtain ⟨e, rfl⟩ := hlone
    have hstatement : line.Alike [.expression e] statement (.expression e) :=
      ⟨fun _ _ _ => Iff.rfl, fun _ _ => Iff.rfl⟩
    exact (hstatement.trans (statement.each_singleton _).symm).trans (program_alike _).symm
  · have hstart (i : Interpreter) : lineStart i p = i.start p := by
      unfold lineStart
      split
      · exact absurd ⟨_, rfl⟩ hlone
      · rfl
    refine ⟨fun i result j => ends_starting.trans ?_, fun i output => ?_⟩
    · rw [hstart]
      exact ends_starting.symm
    · show (lineStart i p).Shows i.settings output ↔ _
      rw [hstart]
      exact Iff.rfl

/-! ## Texts -/

/-- Texts, each read as a program that is run; what is wrong with a text is the result if it is none. -/
def reading (r : Runner Program) : Runner String where
  run steps i text :=
    match Program.parse text with
    | .error diagnostics => some (.error (.parse diagnostics), i)
    | .ok p => r.run steps i p
  Shows i text output :=
    match Program.parse text with
    | .error _ => i.state.output = output
    | .ok p => r.Shows i p output
  run_mono := by
    intro steps more i text ended h hmore
    split at h
    · exact h
    · exact r.run_mono h hmore
  shows_start := by
    intro i text
    split
    · rfl
    · exact r.shows_start i _
  shows_end := by
    intro steps i j text result h
    split at h
    · obtain ⟨-, rfl⟩ := Prod.mk.inj (Option.some.inj h)
      rfl
    · exact r.shows_end h

variable {text : String}

/-- A text is alike to the program that it is read as. -/
theorem reading_alike (r : Runner Program) (h : Program.parse text = .ok p) : (reading r).Alike text r p := by
  refine ⟨fun i result j => exists_congr fun steps => ?_, fun i output => ?_⟩
  · show (match Program.parse text with | .error ds => _ | .ok p => r.run steps i p) = _ ↔ _
    rw [h]
  · show (match Program.parse text with | .error _ => _ | .ok p => r.Shows i p output) ↔ _
    rw [h]

/-- A text is run as the program that it is read as. -/
theorem run_eq (steps : Nat) (i : Interpreter) (text : String) :
    i.run steps text = (reading program).run steps i text := by
  have hreading : (reading program).run steps i text =
      match Program.parse text with
      | .error diagnostics => some (.error (.parse diagnostics), i)
      | .ok p => program.run steps i p := rfl
  rw [hreading, Interpreter.run]
  cases Program.parse text <;> rfl

/-- Texts, each by a call of `Interpreter.run`. -/
def source : Runner String where
  run steps i text := i.run steps text
  Shows := (reading program).Shows
  run_mono := by
    intro steps more i text ended h hmore
    rw [run_eq] at h ⊢
    exact (reading program).run_mono h hmore
  shows_start := (reading program).shows_start
  shows_end := by
    intro steps i j text result h
    rw [run_eq] at h
    exact (reading program).shows_end h

/-- A text ends as a call with enough steps does. -/
theorem ends_source {i j : Interpreter} {result : Except RunError Unit} :
    source.Ends i text result j ↔ ∃ steps, i.run steps text = some (result, j) :=
  Iff.rfl

/-- A text is alike to the program that it is read as, and so to its statements one by one. -/
theorem source_alike (h : Program.parse text = .ok p) : source.Alike text statement.each p := by
  have hreading : source.Alike text (reading program) text := by
    refine ⟨fun i result j => exists_congr fun steps => ?_, fun i output => Iff.rfl⟩
    rw [← run_eq]
    exact Iff.rfl
  exact (hreading.trans (reading_alike program h)).trans (program_alike p)

/-- A line is run from where the prompt starts it. -/
theorem reading_line_run (steps : Nat) (i : Interpreter) (text : String) :
    (reading line).run steps i text =
      match CommandLine.Prompt.Entry.read i text with
      | .error diagnostics => some (.error (.parse diagnostics), i)
      | .ok entry => (i.complete steps entry.start).map fun (result, j) => (conclusion result, j) := by
  have hreading : (reading line).run steps i text =
      match Program.parse text with
      | .error diagnostics => some (.error (.parse diagnostics), i)
      | .ok p => line.run steps i p := rfl
  rw [hreading, CommandLine.Prompt.Entry.read]
  cases hp : Program.parse text with
  | error diagnostics => rfl
  | ok p =>
    match p with
    | [] => rfl
    | [st] => cases st <;> rfl
    | st :: _ :: _ => cases st <;> rfl

/-- Texts, each as the prompt runs a line. -/
def prompt : Runner String where
  run steps i text :=
    match CommandLine.Prompt.Entry.read i text with
    | .error diagnostics => some (.error (.parse diagnostics), i)
    | .ok entry => (i.complete steps entry.start).map fun (result, j) => (conclusion result, j)
  Shows := (reading line).Shows
  run_mono := by
    intro steps more i text ended h hmore
    rw [← reading_line_run] at h ⊢
    exact (reading line).run_mono h hmore
  shows_start := (reading line).shows_start
  shows_end := by
    intro steps i j text result h
    rw [← reading_line_run] at h
    exact (reading line).shows_end h

/-- A line is alike to the program that it is read as, and so to its statements one by one. -/
theorem prompt_alike (h : Program.parse text = .ok p) : prompt.Alike text statement.each p := by
  have hreading : prompt.Alike text (reading line) text := by
    refine ⟨fun i result j => exists_congr fun steps => ?_, fun i output => Iff.rfl⟩
    rw [reading_line_run]
    exact Iff.rfl
  exact ((hreading.trans (reading_alike line h)).trans (line_alike p)).trans (program_alike p)

end Runner

open Runner

/-- Texts that are programs are read, each of them. -/
theorem exists_programs {texts : List String} (h : ∀ text ∈ texts, ∃ p, Program.parse text = .ok p) :
    ∃ programs, List.Forall₂ (fun text p => Program.parse text = .ok p) texts programs := by
  induction texts with
  | nil => exact ⟨[], .nil⟩
  | cons text texts ih =>
    obtain ⟨p, hp⟩ := h text List.mem_cons_self
    obtain ⟨programs, hprograms⟩ := ih fun other hother => h other (List.mem_cons_of_mem _ hother)
    exact ⟨p :: programs, .cons hp hprograms⟩

/-- Running in pieces is alike to running at once. Texts each of which is a program may be joined by the ends of lines
and run at once, or run one by one in one session, or have their statements interpreted one by one, or be given to the
prompt as its lines; the last three up to the first error. From every interpreter, all these end alike, with the same
result and in the same state, and have printed the same on the way. -/
theorem run_in_pieces {texts : List String} (h : ∀ text ∈ texts, ∃ p, Program.parse text = .ok p) :
    source.Alike (String.intercalate "\n" texts) source.each texts ∧
      source.Alike (String.intercalate "\n" texts) (reading answers).each texts ∧
      source.Alike (String.intercalate "\n" texts) prompt.each texts := by
  obtain ⟨programs, hprograms⟩ := exists_programs h
  -- Whichever way the texts are run, it comes to their statements one by one.
  have hjoined : source.Alike (String.intercalate "\n" texts) Runner.statement.each.each programs :=
    (source_alike (Grammar.parse_intercalate hprograms)).trans (Runner.statement.each_flatten programs).symm
  have hpieces {r : Runner String} (hr : ∀ text p, Program.parse text = .ok p → r.Alike text Runner.statement.each p) :
      source.Alike (String.intercalate "\n" texts) r.each texts :=
    hjoined.trans (Alike.each (hprograms.imp hr)).symm
  refine ⟨hpieces fun text p hp => source_alike hp, hpieces fun text p hp => ?_, hpieces fun text p hp => prompt_alike hp⟩
  exact (reading_alike answers hp).trans (answers_alike p)

/-- Pieces of which the first ends with an `if` and the second with a comment; a name in the third is not defined. -/
def pieces : List String :=
  ["if(nil)print nil;", "{print true;}//", "x;", "print nil;"]

/-- The session after the pieces have been run at once. -/
def afterPieces (i : Interpreter) : Interpreter :=
  match i.run 40 (String.intercalate "\n" pieces) with
  | some (_, j) => j
  | none => i

/-- The third piece ends the run, whichever way the pieces are run. -/
theorem run_in_pieces_undefinedName :
    (∀ text ∈ pieces, ∃ p, Program.parse text = .ok p) ∧
      source.each.Ends (fresh ⟨2, fun _ => 0⟩) pieces (.error (.runtime (.unresolvedName "x")))
        (afterPieces (fresh ⟨2, fun _ => 0⟩)) ∧
      (reading answers).each.Ends (fresh ⟨2, fun _ => 0⟩) pieces (.error (.runtime (.unresolvedName "x")))
        (afterPieces (fresh ⟨2, fun _ => 0⟩)) ∧
      prompt.each.Ends (fresh ⟨2, fun _ => 0⟩) pieces (.error (.runtime (.unresolvedName "x")))
        (afterPieces (fresh ⟨2, fun _ => 0⟩)) := by
  have hread : ∀ text ∈ pieces, ∃ p, Program.parse text = .ok p := by
    intro text htext
    simp only [pieces, List.mem_cons, List.not_mem_nil, or_false] at htext
    rcases htext with rfl | rfl | rfl | rfl <;> exact ⟨_, (Program.parse_eq _).trans rfl⟩
  have hparse : Program.parse (String.intercalate "\n" pieces) =
      .ok [.conditional (.literal .nil) (.print (.literal .nil)) none, .block [.print (.literal (.boolean true))],
        .expression (.variable "x"), .print (.literal .nil)] := (Program.parse_eq _).trans rfl
  have hrun : Interpreter.run 40 (fresh ⟨2, fun _ => 0⟩) (String.intercalate "\n" pieces) =
      some (.error (.runtime (.unresolvedName "x")), afterPieces (fresh ⟨2, fun _ => 0⟩)) := by
    rw [afterPieces, Interpreter.run, hparse]
    rfl
  have hjoined : source.Ends (fresh ⟨2, fun _ => 0⟩) (String.intercalate "\n" pieces)
      (.error (.runtime (.unresolvedName "x"))) (afterPieces (fresh ⟨2, fun _ => 0⟩)) := ends_source.2 ⟨40, hrun⟩
  obtain ⟨hsource, hanswers, hprompt⟩ := run_in_pieces hread
  exact ⟨hread, (hsource.ends _ _ _).1 hjoined, (hanswers.ends _ _ _).1 hjoined, (hprompt.ends _ _ _).1 hjoined⟩

end Interpreter

end Lox
