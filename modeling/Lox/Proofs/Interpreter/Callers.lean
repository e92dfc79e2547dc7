import Lox.Interpreter.Basic
import Lox.Proofs.Machine.Sequence

/-!
# Calls and the scope of the caller

The same call made from two scopes runs alike (`CalledFrom`): inside the function that is called, the two runs differ in
the frame that gives the scope back and in nothing else; before the function is entered and after it has been left, they
differ in the scope and in nothing else. Each step keeps this, whatever is called in turn, so no call sees the scope
from which it was made (`calls_ignore_scope`).
-/

namespace Lox

/-- The state in another scope. -/
def State.inScope (s : State) (scope : ScopeId) : State :=
  { s with scope }

/-- The interpreter in another scope. -/
def Interpreter.inScope (i : Interpreter) (scope : ScopeId) : Interpreter :=
  { i with state := i.state.inScope scope }

/-- A call, be it checked for its arguments and depth or not. -/
def Construct.IsCall : Construct → Prop
  | call _ _ | invocation _ _ => True
  | _ => False

/-- The frames of a call that stand below its function. They look at no scope. -/
def Frame.EndsCall : Frame → Prop
  | construct _ | leaveCall => True
  | _ => False

namespace Config

variable {settings : Settings} {outer outer' : ScopeId} {frames : List Frame} {s t : State} {c c' : Config}
  {completion : Completion}

/-- Two configurations at the same point of a call that is made from two scopes. -/
inductive CalledFrom (outer outer' : ScopeId) : Config → Config → Prop
  /-- In the function that is called, or in what it calls. -/
  | inside (inner : Config) {below : List Frame} (hbelow : ∀ frame ∈ below, frame.EndsCall) :
    CalledFrom outer outer' (inner.above (.leaveFunction outer :: below)) (inner.above (.leaveFunction outer' :: below))
  /-- Where the call has come to something. -/
  | outside (completion : Completion) {below : List Frame} (hbelow : ∀ frame ∈ below, frame.EndsCall) (s : State) :
    CalledFrom outer outer' ⟨.deliver completion, below, s.inScope outer⟩ ⟨.deliver completion, below, s.inScope outer'⟩

/-! ## Where calls start -/

/-- A function is entered from two scopes. -/
theorem enter_calledFrom (hframes : ∀ frame ∈ frames, frame.EndsCall) (f : FunctionId) (receiver : Option InstanceId)
    (arguments : List Value) (s : State) :
    CalledFrom outer outer' (enter f receiver arguments frames (s.inScope outer))
      (enter f receiver arguments frames (s.inScope outer')) :=
  .inside ⟨.deliver (.value .nil), [.statements (s.heap.function f).declaration.body],
    (enter f receiver arguments frames (s.inScope outer)).state⟩ hframes

/-- What can be called is run from two scopes. -/
theorem invoke_calledFrom (settings : Settings) (hframes : ∀ frame ∈ frames, frame.EndsCall) (callee : Value)
    (arguments : List Value) (s : State) :
    CalledFrom outer outer' (invoke settings callee arguments frames (s.inScope outer))
      (invoke settings callee arguments frames (s.inScope outer')) := by
  cases callee with
  | function f => exact enter_calledFrom hframes f none arguments s
  | boundMethod b =>
    exact enter_calledFrom hframes (s.heap.boundMethod b).method (some (s.heap.boundMethod b).receiver) arguments s
  | builtin b =>
    simp only [invoke, State.inScope]
    split
    · exact .outside _ hframes { s with readings := if b = .now then s.readings + 1 else s.readings }
    · exact .outside _ hframes { s with heap := (s.heap.newSequence _).2 }
    · exact .outside _ hframes s
  | classObject k =>
    have hconstruct (o : InstanceId) : ∀ frame ∈ .construct o :: frames, frame.EndsCall :=
      List.forall_mem_cons.2 ⟨trivial, hframes⟩
    simp only [invoke, State.inScope]
    split
    · exact enter_calledFrom (hconstruct _) _ _ arguments { s with heap := (s.heap.newInstance k).2 }
    · exact .outside _ hframes { s with heap := (s.heap.newInstance k).2 }
  | _ => exact .outside _ hframes s

/-- A call is made from two scopes. -/
theorem apply_calledFrom (settings : Settings) (hframes : ∀ frame ∈ frames, frame.EndsCall) (callee : Value)
    (arguments : List Value) (s : State) :
    CalledFrom outer outer' (apply settings callee arguments frames (s.inScope outer))
      (apply settings callee arguments frames (s.inScope outer')) := by
  have hleave : ∀ frame ∈ .leaveCall :: frames, frame.EndsCall := List.forall_mem_cons.2 ⟨trivial, hframes⟩
  -- Neither check looks at the scope.
  have hcallable (scope : ScopeId) : (s.inScope scope).heap.callable? callee = s.heap.callable? callee := rfl
  have hdepth (scope : ScopeId) : (s.inScope scope).depth = s.depth := rfl
  simp only [apply, hcallable, hdepth]
  split
  · exact .outside _ hframes s
  · split_ifs
    · exact .outside _ hframes s
    · exact .outside _ hframes s
    · exact invoke_calledFrom settings hleave callee arguments { s with depth := s.depth + 1 }

/-! ## Steps and runs -/

/-- What the function that is called comes to leaves it, and each caller has its scope back. -/
theorem CalledFrom.leave {below : List Frame} (hbelow : ∀ frame ∈ below, frame.EndsCall) (completion : Completion)
    (s : State) :
    CalledFrom outer outer' (step settings ⟨.deliver completion, .leaveFunction outer :: below, s⟩)
      (step settings ⟨.deliver completion, .leaveFunction outer' :: below, s⟩) := by
  cases completion <;> exact .outside _ hbelow s

/-- A frame below the function takes a completion in every scope alike. -/
theorem step_endsCall {frame : Frame} (hframe : frame.EndsCall) (settings : Settings) (completion : Completion)
    (below : List Frame) (s : State) : ∃ (completion' : Completion) (s' : State), ∀ scope,
      step settings ⟨.deliver completion, frame :: below, s.inScope scope⟩ =
        ⟨.deliver completion', below, s'.inScope scope⟩ := by
  cases frame with
  | construct o => cases completion <;> exact ⟨_, s, fun _ => rfl⟩
  | leaveCall => cases completion <;> exact ⟨_, { s with depth := s.depth - 1 }, fun _ => rfl⟩
  | _ => exact hframe.elim

/-- A step of the same call made from two scopes. -/
theorem CalledFrom.step (settings : Settings) (h : CalledFrom outer outer' c c') :
    CalledFrom outer outer' (step settings c) (step settings c') := by
  cases h with
  | inside inner hbelow =>
    by_cases hfinal : inner.IsFinal
    · obtain ⟨completion, s, rfl⟩ := hfinal
      exact .leave hbelow completion s
    · rw [step_above settings _ hfinal, step_above settings _ hfinal]
      exact .inside _ hbelow
  | @outside completion below hbelow s =>
    cases below with
    | nil => cases completion <;> exact .outside _ hbelow s
    | cons frame below =>
      obtain ⟨hframe, hbelow⟩ := List.forall_mem_cons.1 hbelow
      obtain ⟨completion', s', hstep⟩ := step_endsCall hframe settings completion below s
      rw [hstep, hstep]
      exact .outside completion' hbelow s'

/-- Runs of the same call made from two scopes. -/
theorem CalledFrom.advance (settings : Settings) (h : CalledFrom outer outer' c c') (n : Nat) :
    CalledFrom outer outer' (c.advance settings n) (c'.advance settings n) := by
  induction n with
  | zero => exact h
  | succ n ih =>
    rw [advance_succ_last, advance_succ_last]
    exact ih.step settings

/-- All along, the focus is the same, and the states are the same but for the scope. -/
theorem CalledFrom.same (h : CalledFrom outer outer' c c') :
    c'.focus = c.focus ∧ c'.state = c.state.inScope c'.state.scope := by
  cases h with
  | inside inner hbelow => exact ⟨rfl, rfl⟩
  | outside completion hbelow s => exact ⟨rfl, rfl⟩

/-- The one ends if the other does, and each in its own scope. -/
theorem CalledFrom.ends (h : CalledFrom outer outer' c c') (hc : c = ⟨.deliver completion, [], t⟩) :
    t.scope = outer ∧ c' = ⟨.deliver completion, [], t.inScope outer'⟩ := by
  cases h with
  | inside inner hbelow => simp [above] at hc
  | outside completion hbelow s =>
    simp only [mk.injEq, Focus.deliver.injEq] at hc
    obtain ⟨rfl, rfl, rfl⟩ := hc
    exact ⟨rfl, rfl⟩

/-- And they come to the same. -/
theorem CalledFrom.final?_eq (h : CalledFrom outer outer' c c') :
    c'.final? = c.final?.map fun (completion, s) => (completion, s.inScope outer') := by
  cases h with
  | inside inner hbelow =>
    obtain ⟨focus, frames, s⟩ := inner
    cases focus <;> cases frames <;> rfl
  | @outside completion below hbelow s => cases below <;> rfl

/-- A call starts from two scopes. -/
theorem start_calledFrom (settings : Settings) {x : Construct} (hx : x.IsCall) (s : State) :
    CalledFrom outer outer' (x.start settings [] (s.inScope outer)) (x.start settings [] (s.inScope outer')) := by
  have hnil : ∀ frame ∈ [], Frame.EndsCall frame := List.forall_mem_nil _
  cases x with
  | call callee arguments => exact apply_calledFrom settings hnil callee arguments s
  | invocation callee arguments => exact invoke_calledFrom settings hnil callee arguments s
  | _ => exact hx.elim

end Config

open Config

variable {outer outer' : ScopeId} {settings : Settings} {s t : State} {x : Construct} {completion : Completion}
  {context : List Frame}

/-- A call that ends from one scope ends from another, in the same number of steps, in the same way and with everything
the same but for the scope. Each caller is then in its own. -/
theorem Construct.IsCall.advance (hx : x.IsCall) {n : Nat}
    (hend : (x.start settings [] (s.inScope outer)).advance settings n = ⟨.deliver completion, [], t⟩) :
    t.scope = outer ∧
      (x.start settings [] (s.inScope outer')).advance settings n = ⟨.deliver completion, [], t.inScope outer'⟩ :=
  ((start_calledFrom settings hx s).advance settings n).ends hend

/-- So it does in whatever contexts the two calls are made. -/
theorem Construct.IsCall.endsAbove (hx : x.IsCall) (outer' : ScopeId) (context' : List Frame)
    (hend : EndsAbove settings context (x.start settings context (s.inScope outer)) completion t) :
    t.scope = outer ∧
      EndsAbove settings context' (x.start settings context' (s.inScope outer')) completion (t.inScope outer') := by
  obtain ⟨n, hn⟩ := hend.exists_advance (x.start_above settings context (s.inScope outer))
  obtain ⟨hscope, hn'⟩ := hx.advance hn
  exact ⟨hscope, x.start_above settings context' (s.inScope outer') ▸ endsAbove_of_advance settings context' hn'⟩

namespace Interpreter

/-- Calls do not see the scope from which they are made. From two interpreters that are the same but for the scope, the
same call goes through the same moments: at each, the same is looked at, and heap, output, depth and clock are the same.
It ends in the one if it does in the other, in any contexts, with the same value or error; then everything is still the
same but for the scope, which each caller has back. So the two answers are the same, in any number of steps. -/
theorem calls_ignore_scope (i : Interpreter) (scope : ScopeId) (x : Construct) (hx : x.IsCall) :
    (∀ n, ((x.start i.settings [] (i.inScope scope).state).advance i.settings n).focus =
        ((x.start i.settings [] i.state).advance i.settings n).focus ∧
      ∃ scope', ((x.start i.settings [] (i.inScope scope).state).advance i.settings n).state =
        ((x.start i.settings [] i.state).advance i.settings n).state.inScope scope') ∧
    (∀ (context context' : List Frame) (completion : Completion) (t : State),
      EndsAbove i.settings context (x.start i.settings context i.state) completion t ↔ t.scope = i.state.scope ∧
        EndsAbove i.settings context' (x.start i.settings context' (i.inScope scope).state) completion
          (t.inScope scope)) ∧
    (∀ steps, (i.inScope scope).complete steps (x.start i.settings [] (i.inScope scope).state) =
      (i.complete steps (x.start i.settings [] i.state)).map fun (r, j) => (r, j.inScope scope)) := by
  have hstart : CalledFrom i.state.scope scope (x.start i.settings [] i.state)
      (x.start i.settings [] (i.inScope scope).state) := start_calledFrom i.settings hx i.state
  refine ⟨fun n => ?_, fun context context' completion t => ⟨hx.endsAbove scope context', ?_⟩,
    fun steps => ?_⟩
  · obtain ⟨hfocus, hstate⟩ := (hstart.advance i.settings n).same
    exact ⟨hfocus, _, hstate⟩
  · rintro ⟨hscope, hend⟩
    have hback := (hx.endsAbove i.state.scope context hend).2
    rw [show (t.inScope scope).inScope i.state.scope = t by rw [← hscope]; rfl] at hback
    exact hback
  · rw [complete, complete, show (i.inScope scope).settings = i.settings from rfl,
      (hstart.advance i.settings steps).final?_eq, Option.map_map, Option.map_map]
    rfl

/-- An interpreter with a function that answers the variable `secret` of its global scope, and with a scope inside the
global one that has a `secret` of its own. -/
def secretive : Interpreter :=
  let (globals, heap) := ({} : Heap).newScope none
  let heap := heap.define globals "secret" (.string "outer")
  let (f, heap) := heap.newFunction ⟨.mk "peek" [] [.returnValue (some (.variable "secret"))], globals⟩
  let heap := heap.define globals "peek" (.function f)
  let (inner, heap) := heap.newScope (some globals)
  let heap := heap.define inner "secret" (.string "inner")
  { settings := ⟨3, fun _ => 0⟩, globals, state := { heap, scope := globals } }

/-- Called from the inner scope, the function answers what it answers in the global one. -/
theorem calls_ignore_scope_secretive :
    (secretive.complete 10 (secretive.startCall (.function ⟨0⟩) [])).map Prod.fst = some (.ok (.string "outer")) ∧
    ((secretive.inScope ⟨1⟩).complete 10 ((secretive.inScope ⟨1⟩).startCall (.function ⟨0⟩) [])).map
      (fun (r, j) => (r, j.state.scope)) = some (.ok (.string "outer"), ⟨1⟩) := by
  refine ⟨rfl, ?_⟩
  obtain ⟨-, -, hanswers⟩ := calls_ignore_scope secretive ⟨1⟩ (.call (.function ⟨0⟩) []) trivial
  exact (congrArg (Option.map fun (r, j) => (r, j.state.scope)) (hanswers 10)).trans rfl

end Interpreter

end Lox
