import Lox.Proofs.Machine.Context

/-!
# Scope and depth are restored

The frames of a configuration tell to which scope a run leads back (`homeScope`) and how many calls are under way
(`activeCalls`). `Balanced` says that they agree with the state: the frames lead back to one scope, and the depth is
that of the start plus a call for each `leaveCall`. Every step keeps this (`step_balanced`), whatever completion is on
its way; so does every run, and where a construct ends, nothing of it is left in the scope or the depth
(`EndsAbove.restores`).
-/

namespace Lox

/-- The scope that is current when a frame has been dealt with. -/
def Frame.scopeAfter (scope : ScopeId) : Frame → ScopeId
  | leaveBlock outer => outer
  | leaveFunction outer => outer
  | _ => scope

/-- Whether a frame ends a call. -/
def Frame.endsCall : Frame → Bool
  | leaveCall => true
  | _ => false

namespace Config

/-- The scope that is current when all frames have been dealt with. -/
def homeScope (frames : List Frame) (scope : ScopeId) : ScopeId :=
  frames.foldl Frame.scopeAfter scope

/-- How many calls are under way. -/
def activeCalls (frames : List Frame) : Nat :=
  frames.countP Frame.endsCall

/-- The frames lead back to a scope and, from the depth of the state, to a depth; and calls beyond that depth were
made only as far as is allowed. -/
structure Balanced (settings : Settings) (scope : ScopeId) (depth : Nat) (frames : List Frame) (s : State) : Prop where
  home : homeScope frames s.scope = scope
  calls : s.depth = depth + activeCalls frames
  bounded : s.depth ≤ max depth settings.maxCallDepth

/-- A configuration whose frames and state are balanced. -/
def IsBalanced (settings : Settings) (scope : ScopeId) (depth : Nat) (c : Config) : Prop :=
  Balanced settings scope depth c.frames c.state

variable {settings : Settings} {scope : ScopeId} {depth : Nat} {frames : List Frame} {s s' : State} {frame : Frame}

/-! ## Frames -/

/-- What was printed, read or changed in the heap does not matter. -/
theorem Balanced.congr (h : Balanced settings scope depth frames s) (hs : s'.scope = s.scope)
    (hd : s'.depth = s.depth) : Balanced settings scope depth frames s' := by
  obtain ⟨home, calls, bounded⟩ := h
  exact ⟨by rw [hs, home], by rw [hd, calls], by rw [hd]; exact bounded⟩

/-- A frame that neither leads to another scope nor ends a call can be added. -/
theorem Balanced.push (h : Balanced settings scope depth frames s) (hf : frame.scopeAfter s.scope = s.scope)
    (hc : frame.endsCall = false) : Balanced settings scope depth (frame :: frames) s := by
  obtain ⟨home, calls, bounded⟩ := h
  refine ⟨?_, ?_, bounded⟩
  · rw [homeScope, List.foldl_cons, hf]
    exact home
  · rw [activeCalls, List.countP_cons_of_neg (by simp [hc])]
    exact calls

/-- A frame that ends no call may be dealt with, which leads to its scope. -/
theorem Balanced.pop (h : Balanced settings scope depth (frame :: frames) s) (hc : frame.endsCall = false)
    (hs : s'.scope = frame.scopeAfter s.scope) (hd : s'.depth = s.depth) :
    Balanced settings scope depth frames s' := by
  obtain ⟨home, calls, bounded⟩ := h
  refine ⟨?_, ?_, by rw [hd]; exact bounded⟩
  · rw [hs]
    exact home
  · rw [hd, calls, activeCalls, List.countP_cons_of_neg (by simp [hc])]
    rfl

/-- The end of a call may be dealt with, which is one nested call fewer. -/
theorem Balanced.popCall (h : Balanced settings scope depth (.leaveCall :: frames) s) :
    Balanced settings scope depth frames { s with depth := s.depth - 1 } := by
  obtain ⟨home, calls, bounded⟩ := h
  have hcount : activeCalls (.leaveCall :: frames) = activeCalls frames + 1 := List.countP_cons_of_pos rfl
  refine ⟨home, ?_, ?_⟩
  · show s.depth - 1 = _
    omega
  · show s.depth - 1 ≤ _
    omega

/-- A new scope may be entered if a frame leads back from it. -/
theorem Balanced.enterScope (h : Balanced settings scope depth frames s) (hf : frame.scopeAfter s'.scope = s.scope)
    (hc : frame.endsCall = false) (hd : s'.depth = s.depth) :
    Balanced settings scope depth (frame :: frames) s' := by
  obtain ⟨home, calls, bounded⟩ := h
  refine ⟨?_, ?_, by rw [hd]; exact bounded⟩
  · rw [homeScope, List.foldl_cons, hf]
    exact home
  · rw [hd, activeCalls, List.countP_cons_of_neg (by simp [hc])]
    exact calls

/-- A call may be begun if one more is allowed. -/
theorem Balanced.enterCall (h : Balanced settings scope depth frames s) (hm : s.depth < settings.maxCallDepth) :
    Balanced settings scope depth (.leaveCall :: frames) { s with depth := s.depth + 1 } := by
  obtain ⟨home, calls, bounded⟩ := h
  refine ⟨home, ?_, ?_⟩
  · show s.depth + 1 = _
    rw [calls, activeCalls, activeCalls, List.countP_cons_of_pos rfl, Nat.add_assoc]
  · show s.depth + 1 ≤ _
    omega

/-! ## The parts of a step -/

/-- Entering a function leads back to the scope of the caller. -/
theorem enter_balanced (f : FunctionId) (receiver : Option InstanceId) (arguments : List Value)
    (h : Balanced settings scope depth frames s) :
    IsBalanced settings scope depth (enter f receiver arguments frames s) := by
  have hleave : Balanced settings scope depth (.leaveFunction s.scope :: frames)
      (enter f receiver arguments frames s).state := h.enterScope rfl rfl rfl
  exact hleave.push rfl rfl

/-- Running what can be called keeps the balance. -/
theorem invoke_balanced (callee : Value) (arguments : List Value) (h : Balanced settings scope depth frames s) :
    IsBalanced settings scope depth (invoke settings callee arguments frames s) := by
  cases callee with
  | function f => exact enter_balanced f none arguments h
  | boundMethod b => exact enter_balanced _ _ arguments h
  | builtin b =>
    simp only [invoke]
    split <;> exact h.congr rfl rfl
  | classObject c =>
    have hnew : Balanced settings scope depth frames { s with heap := (s.heap.newInstance c).2 } := h.congr rfl rfl
    simp only [invoke]
    split
    · exact enter_balanced _ _ arguments (hnew.push rfl rfl)
    · exact hnew
  | _ => exact h

/-- A call keeps the balance; it is one nested call more only if that is allowed. -/
theorem apply_balanced (callee : Value) (arguments : List Value) (h : Balanced settings scope depth frames s) :
    IsBalanced settings scope depth (apply settings callee arguments frames s) := by
  unfold apply
  split
  · exact h
  · split_ifs with harity hdepth
    · exact h
    · exact h
    · exact invoke_balanced callee arguments (h.enterCall (by omega))

/-- Going on with several expressions keeps the balance. -/
theorem gather_balanced (purpose : Gathering) (done : List Value) (todo : List Expr)
    (h : Balanced settings scope depth frames s) :
    IsBalanced settings scope depth (gather settings purpose done todo frames s) := by
  cases todo with
  | cons e rest => exact h.push rfl rfl
  | nil =>
    cases purpose with
    | elements => exact h.congr rfl rfl
    | arguments callee => exact apply_balanced callee done.reverse h

/-- Looking a name up keeps the balance. -/
theorem lookup_balanced (name : String) (h : Balanced settings scope depth frames s) :
    IsBalanced settings scope depth (lookup name frames s) := by
  unfold lookup
  split <;> exact h

/-- Reading a property keeps the balance. -/
theorem readProperty_balanced (o : InstanceId) (name : String) (h : Balanced settings scope depth frames s) :
    IsBalanced settings scope depth (readProperty o name frames s) := by
  unfold readProperty
  split <;> exact h.congr rfl rfl

/-- Reading a method of the parent keeps the balance. -/
theorem readSuper_balanced (name : String) (h : Balanced settings scope depth frames s) :
    IsBalanced settings scope depth (readSuper name frames s) := by
  unfold readSuper
  split
  · exact h
  · split
    · exact h
    · split <;> exact h.congr rfl rfl

/-- Beginning an expression keeps the balance. -/
theorem evaluate_balanced (e : Expr) (h : Balanced settings scope depth frames s) :
    IsBalanced settings scope depth (evaluate settings e frames s) := by
  cases e with
  | literal l => exact h
  | group inner => exact h
  | list items => exact gather_balanced .elements [] items h
  | «variable» name => exact lookup_balanced name h
  | this => exact lookup_balanced thisName h
  | super method => exact readSuper_balanced method h
  | _ => exact h.push rfl rfl

/-- Beginning a statement keeps the balance; a block leads back to the scope around it. -/
theorem execute_balanced (st : Stmt) (h : Balanced settings scope depth frames s) :
    IsBalanced settings scope depth (execute st frames s) := by
  cases st with
  | varDecl name init =>
    cases init with
    | none => exact h.congr rfl rfl
    | some e => exact h.push rfl rfl
  | funDecl d => exact h.congr rfl rfl
  | classDecl name parent methods =>
    cases parent with
    | none => exact h.congr rfl rfl
    | some parent =>
      simp only [execute]
      split <;> exact h.congr rfl rfl
  | block body =>
    have hleave : Balanced settings scope depth (.leaveBlock s.scope :: frames)
        (execute (.block body) frames s).state := h.enterScope rfl rfl rfl
    exact hleave.push rfl rfl
  | breakLoop => exact h
  | returnValue value =>
    cases value with
    | none => exact h
    | some e => exact h.push rfl rfl
  | _ => exact h.push rfl rfl

/-- Handing a value to the innermost frame keeps the balance. -/
theorem resume_balanced (v : Value) (h : Balanced settings scope depth (frame :: frames) s) :
    IsBalanced settings scope depth (resume settings frame v frames s) := by
  cases frame with
  -- What sets something back are these three; any other frame is only taken off, and some leave another one.
  | leaveBlock outer => exact h.pop rfl rfl rfl
  | leaveFunction outer => exact h.pop rfl rfl rfl
  | leaveCall => exact h.popCall
  | callee arguments => exact gather_balanced _ _ _ (h.pop rfl rfl rfl)
  | gather purpose done todo => exact gather_balanced _ _ _ (h.pop rfl rfl rfl)
  | leftOperand op right => exact (h.pop rfl rfl rfl).push rfl rfl
  | updatePosition sequence value => exact (h.pop rfl rfl rfl).push rfl rfl
  | loopBody test body => exact (h.pop rfl rfl rfl).push rfl rfl
  | connective op right =>
    simp only [resume]
    split_ifs <;> exact h.pop rfl rfl rfl
  | assign target =>
    simp only [resume]
    split <;> exact h.pop rfl rfl rfl
  | propertyOwner property =>
    cases v with
    | instanceObject o => exact readProperty_balanced o property (h.pop rfl rfl rfl)
    | _ => exact h.pop rfl rfl rfl
  | fieldOwner property value =>
    cases v with
    | instanceObject o => exact (h.pop rfl rfl rfl).push rfl rfl
    | _ => exact h.pop rfl rfl rfl
  | elementOwner position =>
    cases v with
    | sequence id => exact (h.pop rfl rfl rfl).push rfl rfl
    | _ => exact h.pop rfl rfl rfl
  | updateOwner position value =>
    cases v with
    | sequence id => exact (h.pop rfl rfl rfl).push rfl rfl
    | _ => exact h.pop rfl rfl rfl
  | updateValue sequence position =>
    simp only [resume]
    split <;> exact h.pop rfl rfl rfl
  | branch thenBranch elseBranch =>
    simp only [resume]
    split_ifs
    · exact h.pop rfl rfl rfl
    · cases elseBranch <;> exact h.pop rfl rfl rfl
  | loopTest test body =>
    simp only [resume]
    split_ifs
    · exact (h.pop rfl rfl rfl).push rfl rfl
    · exact h.pop rfl rfl rfl
  | print =>
    simp only [resume, printLine]
    split <;> exact h.pop rfl rfl rfl
  | statements rest =>
    cases rest with
    | nil => exact h.pop rfl rfl rfl
    | cons st rest => exact (h.pop rfl rfl rfl).push rfl rfl
  | _ => exact h.pop rfl rfl rfl

/-- Handing any other completion to the innermost frame keeps the balance. -/
theorem unwind_balanced (completion : Completion) (h : Balanced settings scope depth (frame :: frames) s) :
    IsBalanced settings scope depth (unwind frame completion frames s) := by
  cases frame with
  | leaveCall => exact h.popCall
  | loopBody test body => cases completion <;> exact h.pop rfl rfl rfl
  | leaveFunction outer => cases completion <;> exact h.pop rfl rfl rfl
  | _ => exact h.pop rfl rfl rfl

/-! ## Steps and runs -/

/-- Every step keeps the balance. -/
theorem step_balanced {c : Config} (h : c.IsBalanced settings scope depth) :
    (step settings c).IsBalanced settings scope depth := by
  obtain ⟨focus, frames, s⟩ := c
  cases focus with
  | evaluate e => exact evaluate_balanced e h
  | execute st => exact execute_balanced st h
  | deliver completion =>
    cases frames with
    | nil => exact h
    | cons frame frames =>
      cases completion with
      | value v => exact resume_balanced v h
      | error e => exact unwind_balanced (.error e) h
      | returned v => exact unwind_balanced (.returned v) h
      | broke => exact unwind_balanced .broke h

/-- Every run keeps the balance. -/
theorem advance_balanced (n : Nat) {c : Config} (h : c.IsBalanced settings scope depth) :
    (c.advance settings n).IsBalanced settings scope depth :=
  advance_keeps (p := IsBalanced settings scope depth) (fun _ => step_balanced) n h

/-- Where a run in a context ends, scope and depth are those to which what was above the context led back. -/
theorem EndsAbove.restores {context : List Frame} {c : Config} {completion : Completion}
    (hrun : EndsAbove settings context c completion s) {inner : Config} (hc : c = inner.above context)
    (h : inner.IsBalanced settings scope depth) : s.scope = scope ∧ s.depth = depth := by
  obtain ⟨n, hn⟩ := hrun.exists_advance hc
  have hend := advance_balanced n h
  rw [hn] at hend
  exact ⟨hend.home, hend.calls⟩

/-- The run of a construct starts balanced. -/
theorem start_balanced (x : Construct) (h : Balanced settings scope depth frames s) :
    (x.start settings frames s).IsBalanced settings scope depth := by
  cases x with
  | statement st => exact h
  | expression e => exact h
  | call callee arguments => exact apply_balanced callee arguments h
  | invocation callee arguments => exact invoke_balanced callee arguments h

end Config

end Lox
