import Lox.Proofs.Machine.Confined

/-!
# All scopes are there

A configuration is grounded if every scope to which it refers is there: that of the running code, those to which the
frames lead back, and those of its functions (`IsGrounded`). Every move keeps it so (`Moves.isGrounded`).
-/

namespace Lox

variable {h h' : Heap} {s p : ScopeId} {name : String} {v : Value}

/-! ## Heaps -/

namespace Heap

/-- Every scope is younger than the one around it, there is a first scope, and the scopes of functions are there. -/
structure IsGrounded (h : Heap) : Prop where
  nested : h.Nested
  first : 0 < h.scopes.size
  functions : ∀ f ∈ h.functions, f.scope.index < h.scopes.size

/-- What is neither a scope nor a function does not matter. -/
theorem IsGrounded.of_eq (hh : h.IsGrounded) (hscopes : h'.scopes = h.scopes)
    (hfunctions : h'.functions = h.functions) : h'.IsGrounded := by
  obtain ⟨hnested, hfirst, hclosures⟩ := hh
  refine ⟨fun s p hp => ?_, by rwa [hscopes], by rwa [hscopes, hfunctions]⟩
  rw [scope, hscopes] at hp
  exact hnested s p hp

/-- The scope of a function is there, and so is that of a function that is not there. -/
theorem IsGrounded.function (hh : h.IsGrounded) (f : FunctionId) : (h.function f).scope.index < h.scopes.size := by
  unfold Heap.function
  cases hf : h.functions[f.index]? with
  | none => exact hh.first
  | some closure => exact hh.functions closure (Array.mem_of_getElem? hf)

/-- A name may be bound. -/
theorem IsGrounded.define (hh : h.IsGrounded) : (h.define s name v).IsGrounded :=
  ⟨hh.nested.define, by simpa using hh.first, fun f hf => by simpa using hh.functions f hf⟩

/-- A scope may be added in one that is there. -/
theorem IsGrounded.newScope (hh : h.IsGrounded) (hp : p.index < h.scopes.size) :
    (h.newScope (some p)).2.IsGrounded := by
  refine ⟨hh.nested.newScope fun q hq => Option.some.inj hq ▸ hp, by simp, fun f hf => ?_⟩
  have hscope := hh.functions f hf
  rw [size_scopes_newScope]
  omega

/-- Functions may be added whose scopes are there. -/
theorem IsGrounded.withFunctions (hh : h.IsGrounded) {closures : Array Closure}
    (hclosures : ∀ f ∈ closures, f.scope.index < h.scopes.size) (hscopes : h'.scopes = h.scopes)
    (hfunctions : h'.functions = h.functions ++ closures) : h'.IsGrounded := by
  have hsame : ({ h with functions := h.functions ++ closures } : Heap).IsGrounded := by
    refine ⟨hh.nested, hh.first, fun f hf => ?_⟩
    rcases Array.mem_append.1 hf with hf | hf
    · exact hh.functions f hf
    · exact hclosures f hf
  exact hsame.of_eq hscopes hfunctions

/-- Parameters may be bound, and no scope is added. -/
theorem IsGrounded.bindParameters (scope : ScopeId) : ∀ (names : List String) (values : List Value) {h : Heap},
    h.IsGrounded → (Config.bindParameters h scope names values).IsGrounded ∧
      (Config.bindParameters h scope names values).scopes.size = h.scopes.size
  | [], _, _, hh => ⟨hh, rfl⟩
  | _ :: _, [], _, hh => ⟨hh, rfl⟩
  | _ :: names, _ :: values, _, hh => by
    obtain ⟨hbound, hsize⟩ := IsGrounded.bindParameters scope names values hh.define
    exact ⟨hbound, hsize.trans size_scopes_define⟩

/-- The scope of a class may be added in one that is there. -/
theorem IsGrounded.withSuper {parent : Option ClassId} (hh : h.IsGrounded) (hp : p.index < h.scopes.size) :
    (h.withSuper p parent).IsGrounded :=
  (hh.newScope hp).define

end Heap

/-- The scope to which a frame leads back is among the first ones, so many. -/
def Frame.IsGrounded (size : Nat) : Frame → Prop
  | leaveBlock outer => outer.index < size
  | leaveFunction outer => outer.index < size
  | _ => True

/-- Plain frames lead back to no scope. -/
theorem Frame.IsPlain.isGrounded {frame : Frame} (hframe : frame.IsPlain) (size : Nat) : frame.IsGrounded size := by
  cases frame with
  | leaveBlock _ => exact hframe.elim
  | leaveFunction _ => exact hframe.elim
  | _ => trivial

/-- More scopes do not matter. -/
theorem Frame.IsGrounded.mono {frame : Frame} {n m : Nat} (hframe : frame.IsGrounded n) (hle : n ≤ m) :
    frame.IsGrounded m := by
  cases frame with
  | leaveBlock outer => exact Nat.lt_of_lt_of_le hframe hle
  | leaveFunction outer => exact Nat.lt_of_lt_of_le hframe hle
  | _ => trivial

namespace Config

variable {c c' : Config} {frames taken : List Frame} {frame : Frame} {state : State} {focus : Focus}

/-- All scopes are there to which a configuration refers. -/
structure IsGrounded (c : Config) : Prop where
  heap : c.state.heap.IsGrounded
  scope : c.state.scope.index < c.state.heap.scopes.size
  frames : ∀ frame ∈ c.frames, frame.IsGrounded c.state.heap.scopes.size

/-! ## Moves -/

/-- A configuration is grounded if its scope is there and its frames lead back to the first scopes, so many. -/
theorem isGrounded_of_le {size : Nat} (hheap : c.state.heap.IsGrounded) (hsize : size ≤ c.state.heap.scopes.size)
    (hscope : c.state.scope.index < c.state.heap.scopes.size)
    (hframes : ∀ frame ∈ c.frames, frame.IsGrounded size) : c.IsGrounded :=
  ⟨hheap, hscope, fun frame hframe => (hframes frame hframe).mono hsize⟩

/-- With the scopes and functions as they were, in the same scope, only frames matter. -/
theorem IsGrounded.keep (hc : c.IsGrounded) (hs : c.state.KeepsScopes c'.state)
    (hframes : ∀ frame ∈ c'.frames, frame.IsGrounded c.state.heap.scopes.size) : c'.IsGrounded := by
  obtain ⟨hscope, hscopes, hfunctions⟩ := hs
  refine isGrounded_of_le (hc.heap.of_eq hscopes hfunctions) (Nat.le_of_eq (by rw [hscopes])) ?_ hframes
  rw [hscope, hscopes]
  exact hc.scope

/-- Where a name is bound, in the same scope, only frames matter. -/
theorem IsGrounded.bind (hc : c.IsGrounded) (hheap : c'.state.heap = c.state.heap.define s name v)
    (hscope : c'.state.scope = c.state.scope)
    (hframes : ∀ frame ∈ c'.frames, frame.IsGrounded c.state.heap.scopes.size) : c'.IsGrounded := by
  have hsize : c'.state.heap.scopes.size = c.state.heap.scopes.size := by rw [hheap, Heap.size_scopes_define]
  refine isGrounded_of_le (hheap ▸ hc.heap.define) (Nat.le_of_eq hsize.symm) ?_ hframes
  rw [hscope, hsize]
  exact hc.scope

/-- Plain frames may be added. -/
theorem isGrounded_plain {size : Nat} (hplain : ∀ frame ∈ taken, frame.IsPlain)
    (hframes : ∀ frame ∈ frames, frame.IsGrounded size) : ∀ frame ∈ taken ++ frames, frame.IsGrounded size := by
  intro frame hframe
  rcases List.mem_append.1 hframe with htaken | hframe
  · exact (hplain frame htaken).isGrounded size
  · exact hframes frame hframe

/-- A function is entered in a new scope in its own one. -/
theorem IsGrounded.enter (hc : IsGrounded ⟨focus, frames, state⟩) (f : FunctionId) (receiver : Option InstanceId)
    (arguments : List Value) : (enter f receiver arguments frames state).IsGrounded := by
  have hnew := hc.heap.newScope (hc.heap.function f)
  have hframes : ∀ frame ∈ .statements (state.heap.function f).declaration.body :: .leaveFunction state.scope :: frames,
      frame.IsGrounded state.heap.scopes.size :=
    List.forall_mem_cons.2 ⟨trivial, List.forall_mem_cons.2 ⟨hc.scope, hc.frames⟩⟩
  cases receiver with
  | none =>
    obtain ⟨hbound, hsize⟩ := hnew.bindParameters ⟨state.heap.scopes.size⟩
      (state.heap.function f).declaration.parameters arguments
    rw [Heap.size_scopes_newScope] at hsize
    exact isGrounded_of_le hbound (hsize ▸ Nat.le_succ _) (hsize ▸ Nat.lt_succ_self _) hframes
  | some o =>
    have hthis : ((state.heap.newScope (some (state.heap.function f).scope)).2.define ⟨state.heap.scopes.size⟩ thisName
        (.instanceObject o)).IsGrounded := hnew.define
    obtain ⟨hbound, hsize⟩ := hthis.bindParameters ⟨state.heap.scopes.size⟩
      (state.heap.function f).declaration.parameters arguments
    rw [Heap.size_scopes_define, Heap.size_scopes_newScope] at hsize
    exact isGrounded_of_le hbound (hsize ▸ Nat.le_succ _) (hsize ▸ Nat.lt_succ_self _) hframes

/-- The work of an expression keeps a configuration grounded. -/
theorem Proceeds.isGrounded (hproceeds : Proceeds frames state c')
    (hc : IsGrounded ⟨.deliver (.value .nil), frames, state⟩) : c'.IsGrounded := by
  cases hproceeds with
  | work focus pushed hfocus hpushed hs => exact hc.keep hs (isGrounded_plain hpushed hc.frames)
  | enter f receiver arguments pushed s' hpushed hs =>
    have hc' : IsGrounded ⟨.deliver (.value .nil), pushed ++ frames, s'⟩ :=
      hc.keep hs (isGrounded_plain hpushed hc.frames)
    exact hc'.enter f receiver arguments

/-- Every move keeps a configuration grounded. -/
theorem Moves.isGrounded (hmove : Moves c c') (hc : c.IsGrounded) : c'.IsGrounded := by
  have hframes := hc.frames
  cases hmove with
  | work taken htaken hproceeds =>
    exact hproceeds.isGrounded (hc.keep (.refl _) fun frame hframe => hframes frame (List.mem_append_right _ hframe))
  | assign => exact hc.bind rfl rfl (List.forall_mem_cons.1 hframes).2
  | define => exact hc.bind rfl rfl (List.forall_mem_cons.1 hframes).2
  | declare => exact hc.bind rfl rfl hframes
  | beginDeclaration => exact hc.keep (.refl _) (List.forall_mem_cons.2 ⟨trivial, hframes⟩)
  -- The new function closes over the scope that is run in, which is there.
  | @declareFunction d frames s =>
    have hfunction : (s.heap.newFunction ⟨d, s.scope⟩).2.IsGrounded :=
      hc.heap.withFunctions (fun f hf => Array.mem_singleton.1 hf ▸ hc.scope) rfl Array.push_eq_append
    have hc' : IsGrounded ⟨.deliver (.value .nil), frames, { s with heap := (s.heap.newFunction ⟨d, s.scope⟩).2 }⟩ :=
      isGrounded_of_le hfunction (Nat.le_refl _) hc.scope hframes
    exact hc'.bind rfl rfl hframes
  -- The methods close over the scope that binds `super`, the one new scope.
  | @declareClass name parent parentClass ds frames s =>
    have hsize : (s.heap.withSuper s.scope parentClass).scopes.size = s.heap.scopes.size + 1 :=
      Heap.size_scopes_define.trans Heap.size_scopes_newScope
    have hsuper : (s.heap.withSuper s.scope parentClass).IsGrounded := hc.heap.withSuper hc.scope
    have hmethods : ∀ f ∈ Heap.methodClosures ⟨s.heap.scopes.size⟩ ds,
        f.scope.index < (s.heap.withSuper s.scope parentClass).scopes.size := by
      intro f hf
      obtain ⟨d, -, rfl⟩ := List.mem_map.1 (List.mem_toArray.1 hf)
      exact hsize ▸ Nat.lt_succ_self _
    have hclass (cls : Class) : ((s.heap.withSuper s.scope parentClass).addClass
        (Heap.methodClosures ⟨s.heap.scopes.size⟩ ds) cls).IsGrounded :=
      hsuper.withFunctions hmethods rfl rfl
    have hdeclared : (declaredHeap name parentClass ds s).scopes.size = s.heap.scopes.size + 1 :=
      Heap.size_scopes_define.trans hsize
    refine isGrounded_of_le (hclass _).define ?_ ?_ hframes
    · exact hdeclared ▸ Nat.le_succ _
    · exact hdeclared ▸ Nat.lt_succ_of_lt hc.scope
  | @beginBlock body frames s =>
    have hsize : (s.heap.newScope (some s.scope)).2.scopes.size = s.heap.scopes.size + 1 := Heap.size_scopes_newScope
    refine isGrounded_of_le (hc.heap.newScope hc.scope) ?_ ?_
      (List.forall_mem_cons.2 ⟨trivial, List.forall_mem_cons.2 ⟨hc.scope, hframes⟩⟩)
    · exact hsize ▸ Nat.le_succ _
    · exact hsize ▸ Nat.lt_succ_self _
  | beginConditional => exact hc.keep (.refl _) (List.forall_mem_cons.2 ⟨trivial, hframes⟩)
  | beginLoop => exact hc.keep (.refl _) (List.forall_mem_cons.2 ⟨trivial, hframes⟩)
  | beginBreak => exact hc.keep (.refl _) hframes
  | beginReturn => exact hc.keep (.refl _) hframes
  | beginReturnValue => exact hc.keep (.refl _) (List.forall_mem_cons.2 ⟨trivial, hframes⟩)
  | beginExpression hframe => exact hc.keep (.refl _) (List.forall_mem_cons.2 ⟨hframe.isGrounded _, hframes⟩)
  | branch => exact hc.keep (.refl _) (List.forall_mem_cons.1 hframes).2
  | noBranch => exact hc.keep (.refl _) (List.forall_mem_cons.1 hframes).2
  | loopHolds => exact hc.keep (.refl _) (List.forall_mem_cons.2 ⟨trivial, (List.forall_mem_cons.1 hframes).2⟩)
  | loopEnds => exact hc.keep (.refl _) (List.forall_mem_cons.1 hframes).2
  | loopAgain => exact hc.keep (.refl _) (List.forall_mem_cons.2 ⟨trivial, (List.forall_mem_cons.1 hframes).2⟩)
  | loopBroken => exact hc.keep (.refl _) (List.forall_mem_cons.1 hframes).2
  | returning => exact hc.keep (.refl _) (List.forall_mem_cons.1 hframes).2
  | noStatement => exact hc.keep (.refl _) (List.forall_mem_cons.1 hframes).2
  | statement => exact hc.keep (.refl _) (List.forall_mem_cons.2 ⟨trivial, (List.forall_mem_cons.1 hframes).2⟩)
  -- The scope to return to is told by the frame.
  | leaveBlock =>
    obtain ⟨houter, hrest⟩ := List.forall_mem_cons.1 hframes
    exact isGrounded_of_le hc.heap (Nat.le_refl _) houter hrest
  | leaveFunction =>
    obtain ⟨houter, hrest⟩ := List.forall_mem_cons.1 hframes
    exact isGrounded_of_le hc.heap (Nat.le_refl _) houter hrest
  | fail => exact hc.keep (.refl _) hframes
  | pass hblock hfunction hloop hs => exact hc.keep hs (List.forall_mem_cons.1 hframes).2
  | rest => exact hc

/-- Every run keeps a configuration grounded. -/
theorem advance_isGrounded (settings : Settings) (n : Nat) (hc : c.IsGrounded) : (c.advance settings n).IsGrounded :=
  advance_keeps (p := IsGrounded) (fun c => (step_moves settings c).isGrounded) n hc

end Config

end Lox
