import Lox.Proofs.Grammar.Precedence
import Lox.Proofs.Interpreter.Transfers
import Lox.Proofs.Machine.ForLoop

/-!
# `for` loops keep their meaning

The statement into which the parser turns a `for` loop does what the loop says, in every state of a session: it prints
the same and ends in the same way, and what runs afterwards cannot tell the one from the other. The scope around every
round is not observable, not even by functions that are declared in the body, since what the grammar allows as a body
declares no names in it (`Grammar.Derivation.not_declares`).
-/

namespace Lox

open Config

/-! ## Bodies -/

/-- What a `for` loop means declares no names in the scope in which it is executed if its body declares none. -/
theorem Grammar.forTree_not_declares (start : Option Stmt) (test increment : Option Expr) {body : Stmt}
    (hbody : ¬body.Declares) : ¬(Grammar.forTree start test increment body).Declares := by
  cases start with
  | some st => cases increment <;> exact not_false
  | none =>
    cases increment with
    | some e => exact not_false
    | none => exact hbody

/-- What the grammar calls a statement declares no names in the scope in which it is executed. -/
theorem Grammar.Derivation.not_declares : ∀ {ending : Grammar.Ending} (d : Grammar.Derivation (.statement ending)),
    ¬d.tree.Declares
  | _, .expressionStatement _ => not_false
  | _, .print _ => not_false
  | _, .block _ => not_false
  | _, .breakLoop => not_false
  | _, .returnValue _ => not_false
  | _, .ifThen _ branch => branch.not_declares
  | _, .ifElse _ branch other => fun hdeclares => hdeclares.elim branch.not_declares other.not_declares
  | _, .whileLoop _ body => body.not_declares
  | _, .forLoop _ _ _ body => Grammar.forTree_not_declares _ _ _ body.not_declares

/-! ## Sessions -/

namespace Interpreter

variable {usage : Usage} {i j : Interpreter} {c c' : Config}

/-- What a host puts into a heap keeps all scopes and functions. -/
theorem Edits.isGrounded (hedit : i.Edits usage j) (hi : i.state.heap.IsGrounded) :
    j.state.heap.IsGrounded ∧ j.state.heap.scopes.size = i.state.heap.scopes.size := by
  cases hedit with
  | define hname hv =>
    obtain ⟨heap, hembed, rfl⟩ := embed_eq_withHeap hv
    obtain ⟨⟨-, sequences, rfl⟩, -⟩ := Heap.Upkeep.sequences.embed trivial hembed
    have hsame : ({ i.state.heap with sequences } : Heap).IsGrounded := hi.of_eq rfl rfl
    exact ⟨hsame.define, Heap.size_scopes_define⟩
  | assign hv h =>
    obtain ⟨heap, hembed, rfl⟩ := embed_eq_withHeap hv
    obtain ⟨⟨-, sequences, rfl⟩, -⟩ := Heap.Upkeep.sequences.embed trivial hembed
    obtain ⟨heap', hassign, rfl⟩ := assign_eq_withHeap h
    obtain ⟨found, -, rfl⟩ := Option.map_eq_some_iff.1 hassign
    have hsame : ({ i.state.heap with sequences } : Heap).IsGrounded := hi.of_eq rfl rfl
    exact ⟨hsame.define, Heap.size_scopes_define⟩
  | setField ho hv =>
    obtain ⟨heap, hembed, rfl⟩ := embed_eq_withHeap hv
    obtain ⟨⟨-, sequences, rfl⟩, -⟩ := Heap.Upkeep.sequences.embed trivial hembed
    exact ⟨hi.of_eq rfl rfl, rfl⟩
  | property ho =>
    rw [property_state]
    unfold Config.readProperty
    split <;> exact ⟨hi.of_eq rfl rfl, rfl⟩
  | takeOutput => exact ⟨hi, rfl⟩
  | printer => exact ⟨hi, rfl⟩

/-- A task starts grounded. -/
theorem Starts.isGrounded {task : Task} (hstart : i.Starts task c)
    (hi : IsGrounded ⟨.deliver (.value .nil), [], i.state⟩) : c.IsGrounded := by
  cases hstart with
  | program p => exact hi.keep (.refl _) fun frame hframe => List.mem_singleton.1 hframe ▸ trivial
  | statement st => cases st <;> exact hi.keep (.refl _) hi.frames
  | call hf hvalues =>
    obtain ⟨heap, heap', hembed, hembeds, rfl⟩ := embeds_eq_withHeap hf hvalues
    obtain ⟨⟨-, sequences, rfl⟩, -⟩ := Heap.Upkeep.sequences.embeds trivial hembed hembeds
    exact (apply_proceeds plain_nil (.refl _) _ _).isGrounded (hi.keep ⟨rfl, rfl, rfl⟩ hi.frames)
  | invocation hf hvalues =>
    obtain ⟨heap, heap', hembed, hembeds, rfl⟩ := embeds_eq_withHeap hf hvalues
    obtain ⟨⟨-, sequences, rfl⟩, -⟩ := Heap.Upkeep.sequences.embeds trivial hembed hembeds
    exact (invoke_proceeds plain_nil (.refl _) _ _).isGrounded (hi.keep ⟨rfl, rfl, rfl⟩ hi.frames)

/-- Every transition of a session keeps its configurations grounded. -/
theorem Next.isGrounded (hnext : i.Next usage c c') (hc : c.IsGrounded) : c'.IsGrounded := by
  cases hnext with
  | step => exact (step_moves i.settings c).isGrounded hc
  | run htask hstart => exact hstart.isGrounded (hc.keep (.refl _) hc.frames)
  | edit hedit =>
    obtain ⟨hheap, hsize⟩ := hedit.isGrounded hc.heap
    refine ⟨hheap, ?_, List.forall_mem_nil _⟩
    rw [hedit.scope_depth.1, hsize]
    exact hc.scope

/-- Builtins are bound in scopes that are there. -/
theorem isGrounded_defineBuiltins {h : Heap} (hh : h.IsGrounded) (scope : ScopeId) :
    (h.defineBuiltins scope).IsGrounded ∧ (h.defineBuiltins scope).scopes.size = h.scopes.size := by
  refine Heap.defineBuiltins_keeps (p := fun h' => h'.IsGrounded ∧ h'.scopes.size = h.scopes.size) ?_ ⟨hh, rfl⟩
  rintro h' b ⟨hh', hsize⟩
  exact ⟨hh'.define, Heap.size_scopes_define.trans hsize⟩

/-- Every configuration of a session is grounded. -/
theorem Reached.isGrounded {settings : Settings} (hc : (fresh settings).Reached usage c) : c.IsGrounded := by
  induction hc with
  | refl =>
    have hbare : (bare settings).state.heap.IsGrounded :=
      ⟨(bare_sound (r := {})).nested, Nat.one_pos, fun f hf => absurd hf (Array.not_mem_empty f)⟩
    obtain ⟨hheap, hsize⟩ := isGrounded_defineBuiltins hbare (bare settings).globals
    exact ⟨hheap, Nat.lt_of_lt_of_eq Nat.one_pos hsize.symm, List.forall_mem_nil _⟩
  | tail _ hnext ih => exact hnext.isGrounded ih

/-! ## The meaning of a loop -/

/-- A run ends with a completion, and this is what has been printed then. -/
def EndsWith (settings : Settings) (c : Config) (completion : Completion) (output : String) : Prop :=
  ∃ s, c.Finishes settings completion s ∧ s.output = output

/-- Whatever runs in one of two states, above frames that lead back to the first scopes, so many, runs alike in the
other one: it ends with the same completion and the same output, and shows the same on the way. -/
def RunAlike (settings : Settings) (n : Nat) (s s' : State) : Prop :=
  ∀ (focus : Focus) (frames : List Frame), (∀ frame ∈ frames, frame.IsGrounded n) →
    (∀ completion output, EndsWith settings ⟨focus, frames, s⟩ completion output ↔
      EndsWith settings ⟨focus, frames, s'⟩ completion output) ∧
    ∀ output, (⟨focus, frames, s⟩ : Config).Shows settings output ↔ (⟨focus, frames, s'⟩ : Config).Shows settings output

/-- States that are alike and in the same of the first scopes run alike. -/
theorem runAlike_of_alike {settings : Settings} {n : Nat} {home : ScopeId} {s s' : State} (h : s.Alike n home s')
    (hscope : s.scope.index < n) (hscope' : s'.scope.index < n) : RunAlike settings n s s' := by
  intro focus frames hframes
  have hs : s.RunsFrom n focus frames := .inr ⟨hscope, hframes⟩
  have hs' : s'.RunsFrom n focus frames := .inr ⟨hscope', hframes⟩
  refine ⟨fun completion output => ⟨?_, ?_⟩, fun output => h.shows_iff hs hs'⟩
  · rintro ⟨t, hend, rfl⟩
    exact h.finishes hs hs' hend
  · rintro ⟨t, hend, rfl⟩
    exact h.symm.finishes hs' hs hend

/-- A `for` loop keeps its meaning. In every configuration of a session, the statement that stands for a loop ends with
a completion and an output if and only if the loop does whose clauses all run in one new scope, and it shows the same on
the way. Where both have ended, whatever runs next runs alike: any code, above any frames that lead back to scopes that
were there, as those of the configuration do. So the scopes around the rounds make no difference to anything. -/
theorem for_loops_direct (settings : Settings) {c : Config} (hc : (fresh settings).Reached .any c)
    {ending : Grammar.Ending} (start : Grammar.Derivation .loopStart) (test increment : Grammar.Derivation .optional)
    (body : Grammar.Derivation (.statement ending)) :
    let loop : ForLoop := ⟨start.tree, test.tree, increment.tree, body.tree⟩
    let run : Config := ⟨.execute (Grammar.Derivation.forLoop start test increment body).tree, [], c.state⟩
    (∀ completion output, EndsWith settings run completion output ↔
      ∃ s, loop.Runs settings c.state completion s ∧ s.output = output) ∧
    (∀ output, run.Shows settings output ↔ loop.RunShows settings c.state output) ∧
    (∀ completion completion' s s', run.Finishes settings completion s → loop.Runs settings c.state completion' s' →
      RunAlike settings c.state.heap.scopes.size s s') ∧
    ∀ frame ∈ c.frames, frame.IsGrounded c.state.heap.scopes.size := by
  intro loop run
  have hgrounded := hc.isGrounded
  have hidle : IsGrounded ⟨.deliver (.value .nil), [], c.state⟩ := hgrounded.keep (.refl _) (List.forall_mem_nil _)
  have hbody : ¬loop.body.Declares := body.not_declares
  have hrun : run = ⟨.execute loop.statement, [], c.state⟩ := by
    have htree : (Grammar.Derivation.forLoop start test increment body).tree = loop.statement :=
      (Grammar.forLoop_eq_forTree _ _ _ _).symm
    exact congrArg (fun st => Config.mk (.execute st) [] c.state) htree
  rw [hrun]
  refine ⟨fun completion output => ⟨?_, ?_⟩, fun output => ForLoop.shows_iff_runShows hbody hidle, ?_, hgrounded.frames⟩
  · rintro ⟨t, hend, rfl⟩
    obtain ⟨t', hruns, halike⟩ := ForLoop.runs_of_finishes hbody hidle hend
    exact ⟨t', hruns, halike.same_output⟩
  · rintro ⟨t', hruns, rfl⟩
    obtain ⟨t, hend, halike⟩ := ForLoop.finishes_of_runs hbody hidle hruns
    exact ⟨t, hend, halike.symm.same_output⟩
  · -- A run has one end, so the state that the loop leads to is alike to that of any other run of the statement.
    intro completion completion' s s' hend hruns
    obtain ⟨t, hend', halike⟩ := ForLoop.finishes_of_runs hbody hidle hruns
    obtain ⟨-, rfl⟩ := hend'.unique hend
    have hscope : t.scope = c.state.scope := State.scope_of_finishes hend
    have hscope' : s'.scope = c.state.scope := by
      obtain ⟨_, -, rfl⟩ := hruns
      rfl
    exact runAlike_of_alike halike (hscope ▸ hgrounded.scope) (hscope' ▸ hgrounded.scope)

/-- The derivation of an expression that is an atom or a name. -/
def primary (e : Grammar.Derivation (.expression .primary)) : Grammar.Derivation (.expression .assignment) :=
  .unassigned (.operand (.operand (.operand (.unconditional
    (.operand (.operand (.operand (.unsigned (.uncalled e)))))))))

/-- The loop `for (var go = true; go; go = false) print "round";` ends after a round. -/
theorem for_loops_direct_oneRound :
    (fresh ⟨3, fun _ => 0⟩).Reached .any (fresh ⟨3, fun _ => 0⟩).idle ∧
    ∃ s, ForLoop.Runs ⟨3, fun _ => 0⟩ ⟨some (.varDecl "go" (some (.literal (.boolean true)))), some (.variable "go"),
        some (.assign "go" (.literal (.boolean false))), .print (.literal (.string "round"))⟩
        (fresh ⟨3, fun _ => 0⟩).state (.value .nil) s ∧ s.output = "round\n" := by
  have hreached : (fresh ⟨3, fun _ => 0⟩).Reached .any (fresh ⟨3, fun _ => 0⟩).idle := .refl
  refine ⟨hreached, ?_⟩
  obtain ⟨hends, -⟩ := for_loops_direct ⟨3, fun _ => 0⟩ hreached
    (.startVariable (.initialized "go" (primary (.atom .yes)))) (.present (primary (.named "go")))
    (.present (.assignVariable "go" (primary (.atom .no)))) (.print (primary (.atom (.string "round"))))
  exact (hends (.value .nil) "round\n").1 ⟨_, ⟨50, rfl⟩, rfl⟩

end Interpreter

end Lox
