import Lox.Proofs.Interpreter.Nesting
import Lox.Proofs.Machine.Transfers

/-!
# Breaks and returns never escape

What is evaluated or called ends with a value or an error and never with a break or a return, in whatever state. A break
that leaves a function is an error for the caller. In a session all of whose programs place their breaks and returns
well, no run ends with the error of a stray break or return.
-/

namespace Lox

open Config

/-- A task whose breaks stand in loops, with no function in between, and whose returns stand in functions. -/
def Task.IsPlaced : Task → Prop
  | program p => Stmt.AllPlaced False False False p
  | statement st => st.IsPlaced False False False
  | call _ _ => True
  | invocation _ _ => True

/-- A host that runs what places its breaks and returns well. -/
def Usage.placed : Usage := ⟨Task.IsPlaced, fun _ => True⟩

namespace Interpreter

variable {i j : Interpreter} {usage : Usage} {stray : Prop} {c c' : Config}

/-! ## Sessions -/

/-- An edit adds no function. -/
theorem Edits.functions (hedit : i.Edits usage j) : j.state.heap.functions = i.state.heap.functions := by
  cases hedit with
  | define hname hv =>
    obtain ⟨heap, hembed, rfl⟩ := embed_eq_withHeap hv
    obtain ⟨⟨-, sequences, rfl⟩, -⟩ := Heap.Upkeep.sequences.embed trivial hembed
    rfl
  | assign hv h =>
    obtain ⟨heap, hembed, rfl⟩ := embed_eq_withHeap hv
    obtain ⟨⟨-, sequences, rfl⟩, -⟩ := Heap.Upkeep.sequences.embed trivial hembed
    obtain ⟨heap', hassign, rfl⟩ := assign_eq_withHeap h
    obtain ⟨found, -, rfl⟩ := Option.map_eq_some_iff.1 hassign
    rfl
  | setField ho hv =>
    obtain ⟨heap, hembed, rfl⟩ := embed_eq_withHeap hv
    obtain ⟨⟨-, sequences, rfl⟩, -⟩ := Heap.Upkeep.sequences.embed trivial hembed
    rfl
  | property ho =>
    rw [property_state]
    unfold Config.readProperty
    split <;> rfl
  | takeOutput => rfl
  | printer => rfl

/-- A task that is placed well starts contained. -/
theorem Starts.contained {task : Task} (hstart : i.Starts task c) (htask : task.IsPlaced)
    (hfunctions : ∀ f ∈ i.state.heap.functions, f.declaration.IsPlaced False) : c.Contained False := by
  cases hstart with
  | program p => exact ⟨trivial, ⟨htask, trivial⟩, hfunctions⟩
  | statement st =>
    cases st with
    | expression e => exact ⟨trivial, trivial, hfunctions⟩
    | _ => exact ⟨htask, trivial, hfunctions⟩
  | call hf hvalues =>
    obtain ⟨heap, heap', hembed, hembeds, rfl⟩ := embeds_eq_withHeap hf hvalues
    obtain ⟨⟨-, sequences, rfl⟩, -⟩ := Heap.Upkeep.sequences.embeds trivial hembed hembeds
    exact (apply_proceeds plain_nil (.refl _) _ _).contained trivial hfunctions
  | invocation hf hvalues =>
    obtain ⟨heap, heap', hembed, hembeds, rfl⟩ := embeds_eq_withHeap hf hvalues
    obtain ⟨⟨-, sequences, rfl⟩, -⟩ := Heap.Upkeep.sequences.embeds trivial hembed hembeds
    exact (invoke_proceeds plain_nil (.refl _) _ _).contained trivial hfunctions

/-- Every transition of a session that places breaks and returns well keeps its configurations contained. -/
theorem Next.contained (hnext : i.Next .placed c c') (hc : c.Contained False) : c'.Contained False := by
  cases hnext with
  | step => exact (step_moves i.settings c).contained hc
  | run htask hstart => exact hstart.contained htask hc.functions
  | edit hedit =>
    have hsame := hedit.functions
    refine ⟨hc.focus, trivial, ?_⟩
    rw [hsame]
    exact hc.functions

/-- Defining builtins adds no function. -/
theorem functions_defineBuiltins (h : Heap) (scope : ScopeId) : (h.defineBuiltins scope).functions = h.functions :=
  Heap.defineBuiltins_keeps (p := fun h' => h'.functions = h.functions) (fun _ _ hfunctions => hfunctions) rfl

/-- Every configuration of a session that places breaks and returns well is contained. -/
theorem Reached.contained {settings : Settings} (hc : (fresh settings).Reached .placed c) : c.Contained False := by
  induction hc with
  | refl =>
    refine ⟨trivial, trivial, fun f hf => ?_⟩
    change f ∈ ((bare settings).state.heap.defineBuiltins (bare settings).globals).functions at hf
    rw [functions_defineBuiltins] at hf
    exact absurd hf (Array.not_mem_empty f)
  | tail _ hnext ih => exact hnext.contained ih

/-- What is no statement starts contained in any state, if breaks may be in functions outside of their loops. -/
theorem start_contained (settings : Settings) {x : Construct} (hx : ∀ st, x ≠ .statement st) (s : State) :
    (x.start settings [] s).Contained True := by
  have hfunctions : ∀ f ∈ s.heap.functions, f.declaration.IsPlaced True := fun f _ => f.declaration.isPlaced_true
  cases x with
  | statement st => exact absurd rfl (hx st)
  | expression e => exact ⟨trivial, trivial, hfunctions⟩
  | call callee arguments => exact (apply_proceeds plain_nil (.refl s) _ _).contained trivial hfunctions
  | invocation callee arguments => exact (invoke_proceeds plain_nil (.refl s) _ _).contained trivial hfunctions

/-- Breaks and returns never escape the code that absorbs them. An expression or a call, in whatever context and state,
ends with a value or an error. A break in a function, outside of the loops of that function, is an error where the
function was called, in the scope of the caller; from there the error goes outwards past all loops, and nothing is
printed or changed meanwhile. And if all programs that a session has run place their breaks in loops, with no function
in between, and their returns in functions, then no run, nor any call from outside, ends with the error of a stray break
or return. -/
theorem transfers_absorbed (settings : Settings) :
    (∀ (context : List Frame) (s s' : State) (x : Construct) (completion : Completion),
      (∀ st, x ≠ .statement st) → EndsAbove settings context (x.start settings context s) completion s' →
        (∃ v, completion = .value v) ∨ ∃ e, completion = .error e) ∧
    (∀ (inner rest : List Frame) (outer : ScopeId) (s : State), (∀ frame ∈ inner, ¬frame.AbsorbsBreak) →
      (∃ n s', (⟨.execute .breakLoop, inner ++ .leaveFunction outer :: rest, s⟩ : Config).advance settings n =
        raise .invalidBreak rest s' ∧ s'.scope = outer ∧ s'.heap = s.heap ∧ s'.output = s.output) ∧
      ∃ n s', (⟨.execute .breakLoop, inner ++ .leaveFunction outer :: rest, s⟩ : Config).advance settings n =
        raise .invalidBreak [] s' ∧ s'.heap = s.heap ∧ s'.output = s.output) ∧
    (∀ i, Session .placed (fresh settings) i → ∀ (task : Task) (c : Config), task.IsPlaced → i.Starts task c →
      ∀ (steps : Nat) (r : Except RuntimeError Value) (i' : Interpreter), i.complete steps c = some (r, i') →
        r ≠ .error .invalidBreak ∧ r ≠ .error .returnOutsideFunction) := by
  refine ⟨?_, ?_, ?_⟩
  · -- Runs stay contained, and a return or a break above no frame is not.
    intro context s s' x completion hx hrun
    obtain ⟨n, hn⟩ := hrun.exists_advance (x.start_above settings context s)
    have hend := (advance_contained settings n (start_contained settings hx s)).focus
    rw [hn] at hend
    cases completion with
    | value v => exact .inl ⟨v, rfl⟩
    | error e => exact .inr ⟨e, rfl⟩
    | returned v => exact hend.elim
    | broke => exact hend.elim
  · -- The break gets to the function, where it is an error, and this passes all the frames that are left.
    intro inner rest outer s hinner
    obtain ⟨n, s', hn, hscope, hheap, houtput⟩ := exists_advance_strayBreak settings hinner outer rest s
    obtain ⟨n', s'', hn', hheap', houtput'⟩ := exists_advance_of_passes settings (.error .invalidBreak) nofun
      (fun frame (_ : frame ∈ rest) => passes_error .invalidBreak frame) [] s'
    rw [List.append_nil] at hn'
    refine ⟨⟨n, s', hn, hscope, hheap, houtput⟩, n + n', s'', ?_, hheap'.trans hheap, houtput'.trans houtput⟩
    rw [advance_add, hn]
    exact hn'
  · -- If nothing stray has been run, a stray error is no completion of anything contained.
    intro i hi task c htask hstart steps r i' hr
    obtain ⟨completion, s, hend, rfl, -⟩ := complete_eq_some_iff.1 hr
    have hc : c.Contained False := (hi.starts htask hstart).contained
    have hfocus := (advance_contained i.settings steps hc).focus
    rw [hend] at hfocus
    cases completion with
    | value v => exact ⟨nofun, nofun⟩
    | error e =>
      rcases hfocus with hstray | he
      · exact hstray.elim
      · constructor <;> rintro ⟨⟩ <;> exact he trivial
    | returned v => exact hfocus.elim
    | broke => exact hfocus.elim

/-- A function whose break stands outside of any loop. -/
def strayBreaker : FunDecl :=
  .mk "f" [] [.breakLoop]

/-- A state in which `strayBreaker` is the one function. -/
def strayBreakerState : State :=
  let s := (fresh ⟨3, fun _ => 0⟩).state
  { s with heap := (s.heap.newFunction ⟨strayBreaker, s.scope⟩).2 }

/-- A program with a loop that ends with a break, in a function that returns. -/
def returningLoop : Program :=
  [.funDecl (.mk "f" [] [.loop (.literal (.boolean true)) .breakLoop, .returnValue none]),
    .expression (.call (.variable "f") [])]

/-- The function breaks no loop of its caller, and a program with a loop and a return of its own runs to its end. -/
theorem transfers_absorbed_strayBreaker :
    (∃ completion s', EndsAbove ⟨3, fun _ => 0⟩ [.loopBody (.literal .nil) .breakLoop]
        ((Construct.call (.function ⟨0⟩) []).start ⟨3, fun _ => 0⟩ [.loopBody (.literal .nil) .breakLoop]
          strayBreakerState) completion s' ∧ ((∃ v, completion = .value v) ∨ ∃ e, completion = .error e)) ∧
    (∃ n s', (⟨.execute .breakLoop, [.statements [], .leaveFunction ⟨0⟩, .leaveCall,
        .loopBody (.literal .nil) .breakLoop], strayBreakerState⟩ : Config).advance ⟨3, fun _ => 0⟩ n =
      raise .invalidBreak [] s' ∧ s'.heap = strayBreakerState.heap ∧ s'.output = strayBreakerState.output) ∧
    ∃ r i, (fresh ⟨3, fun _ => 0⟩).complete 40 ((fresh ⟨3, fun _ => 0⟩).start returningLoop) = some (r, i) ∧
      r ≠ .error .invalidBreak ∧ r ≠ .error .returnOutsideFunction := by
  obtain ⟨hcall, hbreak, hsession⟩ := transfers_absorbed ⟨3, fun _ => 0⟩
  refine ⟨?_, ?_, ?_⟩
  · have hend : ((Construct.call (.function ⟨0⟩) []).start ⟨3, fun _ => 0⟩ [] strayBreakerState).advance
        ⟨3, fun _ => 0⟩ 20 = ⟨.deliver (.error .invalidBreak), [],
          (((Construct.call (.function ⟨0⟩) []).start ⟨3, fun _ => 0⟩ [] strayBreakerState).advance
            ⟨3, fun _ => 0⟩ 20).state⟩ := rfl
    have hrun := endsAbove_of_advance ⟨3, fun _ => 0⟩ [.loopBody (.literal .nil) .breakLoop] hend
    rw [← Construct.start_above] at hrun
    exact ⟨_, _, hrun, hcall _ _ _ (.call (.function ⟨0⟩) []) _ nofun hrun⟩
  · exact (hbreak [.statements []] [.leaveCall, .loopBody (.literal .nil) .breakLoop] ⟨0⟩ strayBreakerState
      (fun frame hframe => List.mem_singleton.1 hframe ▸ not_false)).2
  · have hrun : (fresh ⟨3, fun _ => 0⟩).complete 40 ((fresh ⟨3, fun _ => 0⟩).start returningLoop) =
        some (.ok .nil, (fresh ⟨3, fun _ => 0⟩).atState
          (((fresh ⟨3, fun _ => 0⟩).start returningLoop).advance ⟨3, fun _ => 0⟩ 40).state) := rfl
    have hplaced : (Task.program returningLoop).IsPlaced := ⟨⟨trivial, trivial, trivial⟩, trivial, trivial⟩
    exact ⟨_, _, hrun, hsession _ (.refl .placed _) _ _ hplaced (.program returningLoop) 40 _ _ hrun⟩

end Interpreter

end Lox
