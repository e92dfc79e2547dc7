import Lox.Proofs.Interpreter.Session
import Lox.Proofs.Machine.Restoration

/-!
# Sessions stay at the global scope

From a fresh interpreter on, every configuration of a session is balanced for the global scope and depth 0
(`Reached.balanced`): the depth is the number of calls under way, and never more than are allowed. So between runs a
session is at its global scope and at depth 0, however the last run ended.
-/

namespace Lox.Interpreter

open Config

variable {usage : Usage} {i j : Interpreter} {c c' : Config} {scope : ScopeId} {depth : Nat}

/-- A task starts balanced from where the interpreter is. -/
theorem Starts.balanced {task : Task} (h : i.Starts task c) :
    c.IsBalanced i.settings i.state.scope i.state.depth := by
  have here (heap : Heap) : Balanced i.settings i.state.scope i.state.depth [] { i.state with heap } :=
    ⟨rfl, rfl, Nat.le_max_left _ _⟩
  cases h with
  | program p => exact (here i.state.heap).push rfl rfl
  | statement st => cases st <;> exact here i.state.heap
  | call hf hvalues =>
    obtain ⟨heap, -, rfl⟩ := embed_eq_withHeap hf
    obtain ⟨heap', -, rfl⟩ := embedAll_eq_withHeap hvalues
    exact apply_balanced _ _ (here heap')
  | invocation hf hvalues =>
    obtain ⟨heap, -, rfl⟩ := embed_eq_withHeap hf
    obtain ⟨heap', -, rfl⟩ := embedAll_eq_withHeap hvalues
    exact invoke_balanced _ _ (here heap')

/-- A transition keeps the balance. -/
theorem Next.balanced (h : i.Next usage c c') (hc : c.IsBalanced i.settings scope depth) :
    c'.IsBalanced i.settings scope depth := by
  cases h with
  | step c => exact step_balanced hc
  | run htask hstart =>
    have hhere := hc.home
    have hdepth := hc.calls
    obtain rfl : _ = scope := hhere
    obtain rfl : _ = depth := hdepth
    exact hstart.balanced
  | edit hedit =>
    obtain ⟨hscope, hdepth⟩ := hedit.scope_depth
    exact hc.congr hscope hdepth

/-- Every configuration of a session is balanced for where the session starts. -/
theorem Reached.balanced (h : i.Reached usage c) : c.IsBalanced i.settings i.state.scope i.state.depth := by
  induction h with
  | refl => exact ⟨rfl, rfl, Nat.le_max_left _ _⟩
  | tail _ hnext ih => exact hnext.balanced ih

/-- Between its runs, a session is where it started. -/
theorem Session.scope_depth (h : Session usage i j) :
    j.state.scope = i.state.scope ∧ j.state.depth = i.state.depth := by
  obtain ⟨completion, s, hs, rfl⟩ := h
  exact ⟨hs.balanced.home, hs.balanced.calls⟩

/-- Scope and depth are restored on every outcome. Whatever is run in whatever context and state, and however it ends,
the scope and the depth are then those of the start. All through a session that starts with a fresh interpreter, the
depth is the number of calls under way and at most as many are allowed. After every program and statement that the
session runs, it goes on in the global scope at depth 0. -/
theorem scope_depth_restored (settings : Settings) :
    (∀ (context : List Frame) (s s' : State) (x : Construct) (completion : Completion),
      EndsAbove settings context (x.start settings context s) completion s' →
        s'.scope = s.scope ∧ s'.depth = s.depth) ∧
    (∀ c, (fresh settings).Reached .any c →
      c.state.depth = activeCalls c.frames ∧ c.state.depth ≤ settings.maxCallDepth) ∧
    (∀ i, Session .any (fresh settings) i → ∀ (steps : Nat) (r : Except RuntimeError Value) (i' : Interpreter),
      ((∃ p, i.interpret steps p = some (r, i')) ∨ ∃ st, i.interpretOne steps st = some (r, i')) →
        i'.state.scope = i'.globals ∧ i'.state.depth = 0 ∧ Session .any (fresh settings) i') := by
  refine ⟨?_, ?_, ?_⟩
  · intro context s s' x completion hrun
    exact hrun.restores (x.start_above settings context s) (start_balanced x ⟨rfl, rfl, Nat.le_max_left _ _⟩)
  · intro c hc
    obtain ⟨-, hcalls, hbounded⟩ := hc.balanced
    change c.state.depth = 0 + activeCalls c.frames at hcalls
    change c.state.depth ≤ max 0 settings.maxCallDepth at hbounded
    omega
  · intro i hi steps r i' hrun
    have hsession : Session .any (fresh settings) i' := by
      rcases hrun with ⟨p, hp⟩ | ⟨st, hst⟩
      · exact hi.complete trivial (.program p) hp
      · exact hi.complete trivial (.statement st) hst
    obtain ⟨hscope, hdepth⟩ := hsession.scope_depth
    obtain ⟨-, hglobals⟩ := hsession.settings_globals
    exact ⟨by rw [hscope, hglobals]; rfl, hdepth, hsession⟩

/-- Settings that allow three nested calls, with a clock that stands still. -/
def threeCalls : Settings := ⟨3, fun _ => 0⟩

/-- A block that calls a function in which a break stands outside of any loop. -/
def strayBreak : Stmt :=
  .block [.funDecl (.mk "f" [] [.breakLoop]), .expression (.call (.variable "f") [])]

/-- The state in which `strayBreak` ends. -/
def strayBreakEnd : State :=
  ((⟨.execute strayBreak, [], (fresh threeCalls).state⟩ : Config).advance threeCalls 30).state

/-- The break is an error of the call; it leaves the call and the block, inside a loop as well as on its own. -/
theorem scope_depth_restored_strayBreak :
    (EndsAbove threeCalls [.loopBody (.literal .nil) strayBreak]
        ((Construct.statement strayBreak).start threeCalls [.loopBody (.literal .nil) strayBreak]
          (fresh threeCalls).state) (.error .invalidBreak) strayBreakEnd ∧
      strayBreakEnd.scope = (fresh threeCalls).state.scope ∧ strayBreakEnd.depth = 0) ∧
    ∃ i, (fresh threeCalls).interpret 30 [strayBreak] = some (.error .invalidBreak, i) ∧
      i.state.scope = i.globals ∧ i.state.depth = 0 := by
  have hend : (⟨.execute strayBreak, [], (fresh threeCalls).state⟩ : Config).advance threeCalls 30 =
      ⟨.deliver (.error .invalidBreak), [], strayBreakEnd⟩ := rfl
  have hrun := endsAbove_of_advance threeCalls [.loopBody (.literal .nil) strayBreak] hend
  have hprogram : (fresh threeCalls).interpret 30 [strayBreak] =
      some (.error .invalidBreak, (fresh threeCalls).atState strayBreakEnd) := rfl
  obtain ⟨hconstruct, -, hsession⟩ := scope_depth_restored threeCalls
  obtain ⟨hscope, hdepth, -⟩ := hsession _ (.refl .any _) 30 _ _ (.inl ⟨[strayBreak], hprogram⟩)
  exact ⟨⟨hrun, hconstruct _ _ _ (.statement strayBreak) _ hrun⟩, _, hprogram, hscope, hdepth⟩

end Lox.Interpreter
