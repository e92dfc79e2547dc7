import Lox.Proofs.Machine.Moves
import Lox.Proofs.Machine.Restoration

/-!
# Where names are declared

A run is confined to some scopes if it declares names in no others (`Confined`): the code in focus declares names in the
current scope only if that is one of them, and what the frames will declare goes with the scopes to which they lead
back. Scopes that are not there yet are always among them, since blocks and functions declare in new scopes. Every move
keeps a configuration confined (`Moves.confined`), and so does every run; whatever it does, the names that other scopes
bind stay the same.
-/

namespace Lox

variable {own : ScopeId → Prop} {h h' h'' : Heap} {s t : ScopeId} {name x : String} {v : Value}

/-! ## Heaps -/

namespace Heap

/-- From one heap to another, no scope is lost, and only certain scopes come to bind other names. -/
structure DeclaresOnly (own : ScopeId → Prop) (h h' : Heap) : Prop where
  grows : h.scopes.size ≤ h'.scopes.size
  names : ∀ t, ¬own t → ∀ x, h'.bindsLocally t x = h.bindsLocally t x

/-- Whether a scope binds a name is whether it binds it to something. -/
theorem bindsLocally_eq : h.bindsLocally t x = (h.own t x).isSome :=
  rfl

/-- Heaps with the same scopes bind the same names. -/
theorem DeclaresOnly.of_eq (hscopes : h'.scopes = h.scopes) : h.DeclaresOnly own h' := by
  refine ⟨Nat.le_of_eq (by rw [hscopes]), fun t _ x => ?_⟩
  rw [bindsLocally, bindsLocally, scope, scope, hscopes]

/-- What is declared in two stages is declared in the same scopes. -/
theorem DeclaresOnly.trans (hfirst : h.DeclaresOnly own h') (hsecond : h'.DeclaresOnly own h'') :
    h.DeclaresOnly own h'' :=
  ⟨Nat.le_trans hfirst.grows hsecond.grows, fun t ht x => (hsecond.names t ht x).trans (hfirst.names t ht x)⟩

/-- A definition declares a name in its scope. -/
theorem DeclaresOnly.define (hs : own s) : h.DeclaresOnly own (h.define s name v) := by
  refine ⟨Nat.le_of_eq size_scopes_define.symm, fun t ht x => ?_⟩
  rw [bindsLocally_eq, bindsLocally_eq, own_define, if_neg]
  rintro ⟨rfl, -, -⟩
  exact ht hs

/-- A name that a scope binds already may be defined there again, and no scope comes to bind another name. -/
theorem bindsLocally_define (hbound : h.bindsLocally s name = true) :
    (h.define s name v).bindsLocally t x = h.bindsLocally t x := by
  rw [bindsLocally_eq, bindsLocally_eq, own_define]
  split
  · rename_i hsame
    obtain ⟨rfl, rfl, -⟩ := hsame
    exact hbound.symm
  · rfl

/-- The scope that is found binds the name. -/
theorem bindsLocally_of_locate? {found : ScopeId × Value} (hfound : h.locate? s name = some found) :
    h.bindsLocally found.1 name = true := by
  rw [bindsLocally_eq, own_of_locateWithin hfound]
  rfl

/-- A new scope declares nothing. -/
theorem DeclaresOnly.newScope {parent : Option ScopeId} : h.DeclaresOnly own (h.newScope parent).2 := by
  refine ⟨by simp, fun t _ x => ?_⟩
  rw [bindsLocally_eq, bindsLocally_eq, own_newScope]

/-- Parameters are declared in the scope of the function. -/
theorem DeclaresOnly.bindParameters (hs : own s) : ∀ {names : List String} {values : List Value} {h : Heap},
    h.DeclaresOnly own (Config.bindParameters h s names values)
  | [], _, _ => .of_eq rfl
  | _ :: _, [], _ => .of_eq rfl
  | _ :: _, _ :: _, _ => (DeclaresOnly.define hs).trans (DeclaresOnly.bindParameters hs)

end Heap

/-! ## Code -/

/-- Executing a statement declares names in the current scope: it is a declaration, or a conditional or a loop with such
a statement in it. A block declares names in its own scope. -/
def Stmt.Declares : Stmt → Prop
  | varDecl _ _ => True
  | funDecl _ => True
  | classDecl _ _ _ => True
  | conditional _ thenBranch none => thenBranch.Declares
  | conditional _ thenBranch (some other) => thenBranch.Declares ∨ other.Declares
  | loop _ body => body.Declares
  | _ => False

/-- A frame declares names in the scope that is current when it takes a value. -/
def Frame.Declares : Frame → Prop
  | define _ => True
  | branch thenBranch elseBranch => thenBranch.Declares ∨ ∃ other, elseBranch = some other ∧ other.Declares
  | loopTest _ body => body.Declares
  | loopBody _ body => body.Declares
  | statements rest => ∃ st ∈ rest, st.Declares
  | _ => False

/-- A statement in focus declares names. -/
def Focus.Declares : Focus → Prop
  | execute st => st.Declares
  | _ => False

/-- A plain frame declares nothing. -/
theorem Frame.IsPlain.not_declares {frame : Frame} (hframe : frame.IsPlain) : ¬frame.Declares := by
  cases frame with
  | define _ => exact hframe.elim
  | branch _ _ => exact hframe.elim
  | loopTest _ _ => exact hframe.elim
  | loopBody _ _ => exact hframe.elim
  | statements _ => exact hframe.elim
  | _ => exact not_false

/-- A plain frame leads to no other scope. -/
theorem Frame.IsPlain.scopeAfter {frame : Frame} (hframe : frame.IsPlain) (scope : ScopeId) :
    frame.scopeAfter scope = scope := by
  cases frame with
  | leaveBlock _ => exact hframe.elim
  | leaveFunction _ => exact hframe.elim
  | _ => rfl

/-- The work of expressions declares nothing. -/
theorem Focus.IsWork.not_declares {focus : Focus} (hfocus : focus.IsWork) : ¬focus.Declares := by
  cases focus with
  | execute _ => exact hfocus.elim
  | _ => exact not_false

namespace Config

variable {settings : Settings} {scope : ScopeId} {frames taken pushed : List Frame} {frame : Frame} {state : State}
  {c c' : Config}

/-! ## Frames -/

/-- From a scope on, frames declare names only in certain scopes. -/
def DeclareOnlyIn (own : ScopeId → Prop) : ScopeId → List Frame → Prop
  | _, [] => True
  | scope, frame :: frames => (frame.Declares → own scope) ∧ DeclareOnlyIn own (frame.scopeAfter scope) frames

/-- Plain frames may be added and taken away. -/
theorem declareOnlyIn_plain (hplain : ∀ frame ∈ pushed, frame.IsPlain) :
    DeclareOnlyIn own scope (pushed ++ frames) ↔ DeclareOnlyIn own scope frames := by
  induction pushed with
  | nil => exact Iff.rfl
  | cons frame pushed ih =>
    have hframe := hplain frame List.mem_cons_self
    have hrest := ih fun other hother => hplain other (List.mem_cons_of_mem _ hother)
    rw [List.cons_append, DeclareOnlyIn, hframe.scopeAfter, hrest]
    exact and_iff_right fun hdeclares => absurd hdeclares hframe.not_declares

/-- A configuration declares names only in certain scopes, and has done so from a heap on. Scopes to come are among
them. -/
structure Confined (own : ScopeId → Prop) (h : Heap) (c : Config) : Prop where
  focus : c.focus.Declares → own c.state.scope
  frames : DeclareOnlyIn own c.state.scope c.frames
  young : ∀ t, c.state.heap.scopes.size ≤ t.index → own t
  heap : h.DeclaresOnly own c.state.heap

/-! ## Moves -/

/-- In a heap that has grown, fewer scopes are to come. -/
theorem Confined.young_of_declaresOnly (hc : c.Confined own h) (hgrown : c.state.heap.DeclaresOnly own h') :
    ∀ t, h'.scopes.size ≤ t.index → own t :=
  fun t ht => hc.young t (Nat.le_trans hgrown.grows ht)

/-- A configuration is confined if its heap has been changed in a confined way and its code declares in such scopes. -/
theorem Confined.to (hc : c.Confined own h) (hgrown : c.state.heap.DeclaresOnly own c'.state.heap)
    (hfocus : c'.focus.Declares → own c'.state.scope) (hframes : DeclareOnlyIn own c'.state.scope c'.frames) :
    c'.Confined own h :=
  ⟨hfocus, hframes, hc.young_of_declaresOnly hgrown, hc.heap.trans hgrown⟩

/-- The scope that is added next may be declared in. -/
theorem Confined.own_next (hc : c.Confined own h) : own ⟨c.state.heap.scopes.size⟩ :=
  hc.young _ (Nat.le_refl _)

/-- What has been dealt with may be left out: a focus, and plain frames. -/
theorem Confined.wait {focus : Focus} (hc : Confined own h ⟨focus, taken ++ frames, state⟩)
    (htaken : ∀ frame ∈ taken, frame.IsPlain) : Confined own h ⟨.deliver (.value .nil), frames, state⟩ :=
  ⟨not_false.elim, (declareOnlyIn_plain htaken).1 hc.frames, hc.young, hc.heap⟩

/-- Entering a function declares names in its new scope only. -/
theorem Confined.enter {focus : Focus} {state' : State} (f : FunctionId) (receiver : Option InstanceId)
    (arguments : List Value) (hc : Confined own h ⟨focus, frames, state⟩) (hs : state.KeepsScopes state')
    (hpushed : ∀ frame ∈ pushed, frame.IsPlain) :
    Confined own h (enter f receiver arguments (pushed ++ frames) state') := by
  have hnew : own ⟨state'.heap.scopes.size⟩ := hs.scopes ▸ hc.own_next
  have hscope : state.heap.DeclaresOnly own (state'.heap.newScope (some (state'.heap.function f).scope)).2 :=
    (Heap.DeclaresOnly.of_eq hs.scopes).trans .newScope
  refine hc.to ?_ not_false.elim ⟨fun _ => hnew, not_false.elim, ?_⟩
  · cases receiver with
    | none => exact hscope.trans (.bindParameters hnew)
    | some o => exact (hscope.trans (.define hnew)).trans (.bindParameters hnew)
  · change DeclareOnlyIn own state'.scope (pushed ++ frames)
    rw [declareOnlyIn_plain hpushed, hs.scope]
    exact hc.frames

/-- The work of an expression declares nothing but what functions declare in their own scopes. -/
theorem Proceeds.confined (hproceeds : Proceeds frames state c')
    (hc : Confined own h ⟨.deliver (.value .nil), frames, state⟩) : c'.Confined own h := by
  cases hproceeds with
  | work focus pushed hfocus hpushed hs =>
    refine hc.to (.of_eq hs.scopes) (fun hdeclares => absurd hdeclares hfocus.not_declares) ?_
    rw [declareOnlyIn_plain hpushed, hs.scope]
    exact hc.frames
  | enter f receiver arguments pushed s' hpushed hs => exact hc.enter f receiver arguments hs hpushed

/-- The declaration of a class declares its name, and `super` in a new scope. -/
theorem declaredHeap_declaresOnly {ds : List FunDecl} {parent : Option ClassId}
    (hscope : own state.scope) (hnew : own ⟨state.heap.scopes.size⟩) :
    state.heap.DeclaresOnly own (declaredHeap name parent ds state) := by
  have hsuper : state.heap.DeclaresOnly own (state.heap.withSuper state.scope parent) :=
    Heap.DeclaresOnly.newScope.trans (.define hnew)
  have hclass (functions : Array Closure) (cls : Class) :
      state.heap.DeclaresOnly own ((state.heap.withSuper state.scope parent).addClass functions cls) :=
    hsuper.trans (.of_eq rfl)
  exact (hclass _ _).trans (.define hscope)

/-- Every move keeps a configuration confined. -/
theorem Moves.confined (hmove : Moves c c') (hc : c.Confined own h) : c'.Confined own h := by
  have hframes := hc.frames
  cases hmove with
  | work taken htaken hproceeds => exact hproceeds.confined (hc.wait htaken)
  -- An assignment binds a name that its scope binds already, so it declares nothing.
  | assign hfound =>
    refine hc.to ⟨Nat.le_of_eq Heap.size_scopes_define.symm, fun t _ x => ?_⟩ not_false.elim hframes.2
    exact Heap.bindsLocally_define (Heap.bindsLocally_of_locate? hfound)
  | define => exact hc.to (.define (hframes.1 trivial)) not_false.elim hframes.2
  | declare => exact hc.to (.define (hc.focus trivial)) not_false.elim hframes
  | beginDeclaration => exact hc.to (.of_eq rfl) not_false.elim ⟨fun _ => hc.focus trivial, hframes⟩
  | @declareFunction d frames s =>
    have hfunction : s.heap.DeclaresOnly own (s.heap.newFunction ⟨d, s.scope⟩).2 := .of_eq rfl
    exact hc.to (hfunction.trans (.define (hc.focus trivial))) not_false.elim hframes
  | declareClass => exact hc.to (declaredHeap_declaresOnly (hc.focus trivial) hc.own_next) not_false.elim hframes
  -- The scope of a block is new, and a new scope is one of its own.
  | beginBlock => exact hc.to .newScope not_false.elim ⟨fun _ => hc.own_next, not_false.elim, hframes⟩
  | @beginConditional test thenBranch elseBranch frames s =>
    refine hc.to (.of_eq rfl) not_false.elim ⟨fun hdeclares => hc.focus ?_, hframes⟩
    cases elseBranch with
    | none =>
      rcases hdeclares with hthen | ⟨other, hother, -⟩
      · exact hthen
      · exact nomatch hother
    | some other =>
      rcases hdeclares with hthen | ⟨other, hsame, hother⟩
      · exact .inl hthen
      · exact .inr (Option.some.inj hsame ▸ hother)
  | beginLoop => exact hc.to (.of_eq rfl) not_false.elim ⟨hc.focus, hframes⟩
  | beginBreak => exact hc.to (.of_eq rfl) not_false.elim hframes
  | beginReturn => exact hc.to (.of_eq rfl) not_false.elim hframes
  | beginReturnValue => exact hc.to (.of_eq rfl) not_false.elim ⟨not_false.elim, hframes⟩
  | beginExpression hframe =>
    refine hc.to (.of_eq rfl) not_false.elim ⟨fun hdeclares => absurd hdeclares hframe.not_declares, ?_⟩
    rw [hframe.scopeAfter]
    exact hframes
  | branch hst =>
    refine hc.to (.of_eq rfl) (fun hdeclares => hframes.1 ?_) hframes.2
    rcases hst with rfl | hother
    · exact .inl hdeclares
    · exact .inr ⟨_, hother, hdeclares⟩
  | noBranch => exact hc.to (.of_eq rfl) not_false.elim hframes.2
  | loopHolds => exact hc.to (.of_eq rfl) hframes.1 hframes
  | loopEnds => exact hc.to (.of_eq rfl) not_false.elim hframes.2
  | loopAgain => exact hc.to (.of_eq rfl) not_false.elim hframes
  | loopBroken => exact hc.to (.of_eq rfl) not_false.elim hframes.2
  | returning => exact hc.to (.of_eq rfl) not_false.elim hframes.2
  | noStatement => exact hc.to (.of_eq rfl) not_false.elim hframes.2
  | statement =>
    refine hc.to (.of_eq rfl) (fun hdeclares => hframes.1 ⟨_, List.mem_cons_self, hdeclares⟩) ⟨?_, hframes.2⟩
    rintro ⟨other, hother, hdeclares⟩
    exact hframes.1 ⟨other, List.mem_cons_of_mem _ hother, hdeclares⟩
  | leaveBlock => exact hc.to (.of_eq rfl) not_false.elim hframes.2
  | leaveFunction => exact hc.to (.of_eq rfl) not_false.elim hframes.2
  | fail => exact hc.to (.of_eq rfl) not_false.elim hframes
  -- Only a frame that ends a block or a function changes the scope, and neither of them is passed here.
  | @pass completion frame frames s s' hblock hfunction hloop hs =>
    refine hc.to (.of_eq hs.scopes) not_false.elim ?_
    have hsame : frame.scopeAfter s.scope = s.scope := by
      cases frame with
      | leaveBlock outer => exact absurd rfl (hblock outer)
      | leaveFunction outer => exact absurd rfl (hfunction outer)
      | _ => rfl
    rw [hs.scope, ← hsame]
    exact hframes.2
  | rest => exact hc

/-- Every run keeps a configuration confined. -/
theorem advance_confined (settings : Settings) (n : Nat) (hc : c.Confined own h) :
    (c.advance settings n).Confined own h :=
  advance_keeps (p := Confined own h) (fun c => (step_moves settings c).confined) n hc

end Config

end Lox
