import Lox.Proofs.Interpreter.ForLoop
import Lox.Proofs.Interpreter.Integrity
import Lox.Proofs.Interpreter.Restoration
import Lox.Proofs.Machine.Evaluation

/-!
# Interpreters at rest

What a program finds that a session runs next (`Session.atRest`), and what the session answers, by how the program and
its expressions end from there.
-/

namespace Lox.Interpreter

open Config

variable {usage : Usage} {settings : Settings} {i : Interpreter} {c : Config} {completion : Completion} {s : State}

/-- An interpreter is at rest: it is in its global scope and makes no call, and its heap is in order. -/
structure AtRest (i : Interpreter) : Prop where
  scope : i.state.scope = i.globals
  depth : i.state.depth = 0
  there : i.globals.index < i.state.heap.scopes.size
  grounded : i.state.heap.IsGrounded
  intact : i.state.heap.IsIntact

/-- Between its runs a session is at rest. -/
theorem Session.atRest (hi : Session usage (fresh settings) i) : i.AtRest := by
  have hscope : i.state.scope = i.globals := hi.scope_depth.1.trans hi.settings_globals.2.symm
  have hdepth : i.state.depth = 0 := hi.scope_depth.2
  obtain ⟨completion, s, hs, rfl⟩ := hi
  exact ⟨hscope, hdepth, hscope ▸ hs.isGrounded.scope, hs.isGrounded.heap, hs.isIntact.sustains.heap⟩

/-- What the global scope binds a name to is what the name means there. -/
theorem lookup?_of_global {name : String} {v : Value} (hv : i.global name = .ok v) :
    i.state.heap.lookup? i.globals name = some v := by
  unfold Interpreter.global at hv
  split at hv
  · rename_i w hw
    exact Except.ok.inj hv ▸ hw
  · cases hv

/-- And the other way round. -/
theorem global_of_lookup? {name : String} {v : Value} (hv : i.state.heap.lookup? i.globals name = some v) :
    i.global name = .ok v := by
  simp only [Interpreter.global, hv]

/-- A run that ends is completed within some number of steps. -/
theorem exists_complete (hend : c.Finishes i.settings completion s) :
    ∃ steps, i.complete steps c = some (completion.result, i.atState s) := by
  obtain ⟨steps, hsteps⟩ := hend
  exact ⟨steps, complete_eq_some_iff.2 ⟨completion, s, hsteps, rfl, rfl⟩⟩

/-- So is the run of a text, as that of the program that it is read as. -/
theorem exists_run {text : String} {p : Program} {v : Value} (htext : Program.parse text = .ok p)
    (hend : Runs i.settings p i.state (.value v) s) : ∃ steps, i.run steps text = some (.ok (), i.atState s) := by
  obtain ⟨steps, hsteps⟩ := exists_complete hend
  refine ⟨steps, ?_⟩
  have hinterpret : i.interpret steps p = some (.ok v, i.atState s) := hsteps
  simp only [Interpreter.run, htext, hinterpret]
  rfl

end Lox.Interpreter
