import Lox.Proofs.Heap.Contraction
import Lox.Proofs.Machine.Sequence

/-!
# Runs without hollow scopes

A configuration is mirrored by another that lacks hollow scopes if the heap of the one contracts to that of the other
and everything else is the same up to the renaming of scopes (`Mirrors`). As long as code declares names in no hollow
scope, which is what `Confined` says, both make the same steps (`Mirrors.step`): they end with the same completions, and
they print the same.
-/

namespace Lox

open Heap (Contracts AgreeBelow)

/-- A frame in renamed scopes. -/
def Frame.onto (k : ScopeId → ScopeId) : Frame → Frame
  | leaveBlock outer => leaveBlock (k outer)
  | leaveFunction outer => leaveFunction (k outer)
  | frame => frame

/-- A state in renamed scopes. -/
def State.onto (s : State) (k : ScopeId → ScopeId) (scopes : Array Scope) : State :=
  { s with heap := s.heap.onto k scopes, scope := k s.scope }

namespace Config

/-- A configuration in renamed scopes. -/
def onto (c : Config) (k : ScopeId → ScopeId) (scopes : Array Scope) : Config :=
  ⟨c.focus, c.frames.map (Frame.onto k), c.state.onto k scopes⟩

variable {settings : Settings} {k k' : ScopeId → ScopeId} {hollow : ScopeId → Prop} {frames : List Frame} {s s' : State}
  {scopes : Array Scope} {c d : Config} {name : String} {v : Value} {frame : Frame} {heap : Heap}

/-- Frames whose scopes are there are renamed alike if the renamings agree there. -/
theorem map_onto_congr {size : Nat} (hframes : ∀ frame ∈ frames, frame.IsGrounded size)
    (hagree : AgreeBelow size k k') : frames.map (Frame.onto k') = frames.map (Frame.onto k) := by
  refine List.map_congr_left fun frame hframe => ?_
  have hgrounded := hframes frame hframe
  cases frame with
  | leaveBlock outer => exact congrArg Frame.leaveBlock (hagree outer hgrounded)
  | leaveFunction outer => exact congrArg Frame.leaveFunction (hagree outer hgrounded)
  | _ => rfl

/-! ## The parts of a step -/

/-- One configuration is another without the hollow scopes, in scopes that are renamed; the first ones, so many, in some
given way. -/
def Follows (k : ScopeId → ScopeId) (hollow : ScopeId → Prop) (size : Nat) (c d : Config) : Prop :=
  ∃ k' scopes, AgreeBelow size k k' ∧ Contracts k' hollow c.state.heap (c.state.heap.onto k' scopes) ∧
    d = c.onto k' scopes

/-- It is enough that the heaps contract, and that everything else is the same in renamed scopes. -/
theorem follows_of_contracts {size : Nat} (hagree : AgreeBelow size k k')
    (hheap : Contracts k' hollow c.state.heap d.state.heap) (hfocus : d.focus = c.focus)
    (hframes : d.frames = c.frames.map (Frame.onto k'))
    (hstate : d.state = { c.state with heap := d.state.heap, scope := k' c.state.scope }) :
    Follows k hollow size c d := by
  have hobjects := hheap.objects
  refine ⟨k', d.state.heap.scopes, hagree, hobjects ▸ hheap, ?_⟩
  obtain ⟨focus, frames, ⟨heap, scope, depth, output, readings, refusal⟩⟩ := d
  obtain rfl : focus = c.focus := hfocus
  obtain rfl : frames = c.frames.map (Frame.onto k') := hframes
  rw [onto, State.onto, ← hobjects, ← hstate]

/-- Where the scopes stay, they are renamed as before. -/
theorem follows_keep (hc : Contracts k hollow s.heap (s.heap.onto k scopes))
    (hscopes : c.state.heap.scopes = s.heap.scopes) (hd : d = c.onto k scopes) :
    Follows k hollow s.heap.scopes.size c d :=
  ⟨k, scopes, fun _ _ => rfl, hc.of_scopes hscopes rfl rfl, hd⟩

/-- Where a name is bound in a scope that is not hollow, it is bound in its counterpart. -/
theorem follows_define {scope : ScopeId} (hc : Contracts k hollow s.heap (s.heap.onto k scopes))
    (hscope : scope.index < s.heap.scopes.size) (hsolid : ¬hollow scope)
    (hheap : c.state.heap = s.heap.define scope name v)
    (hd : d = c.onto k ((s.heap.onto k scopes).define (k scope) name v).scopes) :
    Follows k hollow s.heap.scopes.size c d := by
  refine ⟨k, _, fun _ _ => rfl, ?_, hd⟩
  rw [hheap]
  exact hc.define hscope hsolid name v

section

variable (hg : IsGrounded ⟨.deliver (.value .nil), frames, s⟩) (hnew : ¬hollow ⟨s.heap.scopes.size⟩)
  (hc : Contracts k hollow s.heap (s.heap.onto k scopes))

include hg hnew hc

/-- A function is entered in a new scope and its counterpart. -/
theorem enter_follows (f : FunctionId) (receiver : Option InstanceId) (arguments : List Value) :
    Follows k hollow s.heap.scopes.size (enter f receiver arguments frames s)
      (enter f receiver arguments (frames.map (Frame.onto k)) (s.onto k scopes)) := by
  obtain ⟨k₁, hagree, hself, hopen⟩ : ∃ k₁, AgreeBelow s.heap.scopes.size k k₁ ∧
      k₁ ⟨s.heap.scopes.size⟩ = ⟨scopes.size⟩ ∧
      Contracts k₁ hollow (s.heap.newScope (some (s.heap.function f).scope)).2
        ((s.heap.onto k scopes).newScope (some (k (s.heap.function f).scope))).2 :=
    hc.newScope hg.heap (hg.heap.function f) hnew
  have hthere : s.heap.scopes.size < (s.heap.newScope (some (s.heap.function f).scope)).2.scopes.size := by simp
  have hfunction := hc.function f
  -- What has been bound on both sides makes the two heaps.
  have hend {heap heap' : Heap} (hbound : Contracts k₁ hollow heap heap') :
      Follows k hollow s.heap.scopes.size
        ⟨.deliver (.value .nil), .statements (s.heap.function f).declaration.body :: .leaveFunction s.scope :: frames,
          { s with heap, scope := ⟨s.heap.scopes.size⟩ }⟩
        ⟨.deliver (.value .nil), .statements (s.heap.function f).declaration.body :: .leaveFunction (k s.scope) ::
          frames.map (Frame.onto k), { s with heap := heap', scope := ⟨scopes.size⟩ }⟩ := by
    refine follows_of_contracts hagree hbound rfl ?_ ?_
    · rw [← hagree s.scope hg.scope, ← map_onto_congr hg.frames hagree]
      rfl
    · rw [← hself]
  cases receiver with
  | none =>
    have hbound := hopen.bindParameters hnew (s.heap.function f).declaration.parameters arguments hthere
    rw [hself] at hbound
    have hentered := hend hbound
    simp only [enter, State.onto, hfunction, Closure.onto]
    exact hentered
  | some o =>
    have hthis : Contracts k₁ hollow ((s.heap.newScope (some (s.heap.function f).scope)).2.define
          ⟨s.heap.scopes.size⟩ thisName (.instanceObject o))
        (((s.heap.onto k scopes).newScope (some (k (s.heap.function f).scope))).2.define
          (k₁ ⟨s.heap.scopes.size⟩) thisName (.instanceObject o)) := hopen.define hthere hnew _ _
    have hbound := hthis.bindParameters hnew (s.heap.function f).declaration.parameters arguments
      (by rwa [Heap.size_scopes_define])
    rw [hself] at hbound
    have hentered := hend hbound
    simp only [enter, State.onto, hfunction, Closure.onto]
    exact hentered

end

/-- One more frame that leads back to no scope, and other objects, do not matter. -/
theorem IsGrounded.push (hg : IsGrounded ⟨.deliver (.value .nil), frames, s⟩) (hframe : frame.IsPlain)
    (hs : s.KeepsScopes s') : IsGrounded ⟨.deliver (.value .nil), frame :: frames, s'⟩ :=
  hg.keep hs (List.forall_mem_cons.2 ⟨hframe.isGrounded _, hg.frames⟩)

section

variable (hg : IsGrounded ⟨.deliver (.value .nil), frames, s⟩) (hnew : ¬hollow ⟨s.heap.scopes.size⟩)
  (hc : Contracts k hollow s.heap (s.heap.onto k scopes))

include hg hnew hc

/-- What can be called is run alike. -/
theorem invoke_follows (callee : Value) (arguments : List Value) :
    Follows k hollow s.heap.scopes.size (invoke settings callee arguments frames s)
      (invoke settings callee arguments (frames.map (Frame.onto k)) (s.onto k scopes)) := by
  cases callee with
  | function f => exact enter_follows hg hnew hc f none arguments
  | boundMethod b => exact enter_follows hg hnew hc _ _ arguments
  | builtin b =>
    simp only [invoke, State.onto, Heap.run_onto]
    split <;> exact follows_keep hc rfl rfl
  | classObject c =>
    have hmethod : ((s.heap.onto k scopes).newInstance c).2.findMethod? c initializerName =
        (s.heap.newInstance c).2.findMethod? c initializerName :=
      Heap.findMethod?_onto (h := (s.heap.newInstance c).2) c
    simp only [invoke, State.onto]
    rw [hmethod]
    cases (s.heap.newInstance c).2.findMethod? c initializerName with
    | none => exact follows_keep hc rfl rfl
    | some f =>
      have hconstruct : IsGrounded ⟨.deliver (.value .nil), .construct ⟨s.heap.instances.size⟩ :: frames,
          { s with heap := (s.heap.newInstance c).2 }⟩ :=
        hg.push trivial ⟨rfl, rfl, rfl⟩
      exact enter_follows hconstruct hnew (hc.of_scopes rfl rfl rfl) f _ arguments
  | _ =>
    simp only [invoke, State.onto, Heap.text_onto]
    exact follows_keep hc rfl rfl

/-- A value is called alike. -/
theorem apply_follows (callee : Value) (arguments : List Value) :
    Follows k hollow s.heap.scopes.size (apply settings callee arguments frames s)
      (apply settings callee arguments (frames.map (Frame.onto k)) (s.onto k scopes)) := by
  have hcallable : (s.onto k scopes).heap.callable? callee = s.heap.callable? callee := Heap.callable?_onto callee
  have htext : (s.onto k scopes).heap.text callee = s.heap.text callee := Heap.text_onto callee
  have hdepth : (s.onto k scopes).depth = s.depth := rfl
  simp only [apply, hcallable, htext, hdepth]
  cases s.heap.callable? callee with
  | none => exact follows_keep hc rfl rfl
  | some signature =>
    dsimp only
    split_ifs
    · exact follows_keep hc rfl rfl
    · exact follows_keep hc rfl rfl
    · have hcall : IsGrounded ⟨.deliver (.value .nil), .leaveCall :: frames, { s with depth := s.depth + 1 }⟩ :=
        hg.push trivial ⟨rfl, rfl, rfl⟩
      exact invoke_follows hcall hnew hc callee arguments

/-- Several expressions are gone on with alike. -/
theorem gather_follows (settings : Settings) (purpose : Gathering) (done : List Value) (todo : List Expr) :
    Follows k hollow s.heap.scopes.size (gather settings purpose done todo frames s)
      (gather settings purpose done todo (frames.map (Frame.onto k)) (s.onto k scopes)) := by
  cases todo with
  | cons e rest => exact follows_keep hc rfl rfl
  | nil =>
    cases purpose with
    | elements => exact follows_keep hc rfl rfl
    | arguments callee => exact apply_follows hg hnew hc callee done.reverse

omit hnew in
/-- A name is looked up alike. -/
theorem lookup_follows (name : String) :
    Follows k hollow s.heap.scopes.size (lookup name frames s)
      (lookup name (frames.map (Frame.onto k)) (s.onto k scopes)) := by
  have hlookup : (s.onto k scopes).heap.lookup? (s.onto k scopes).scope name = s.heap.lookup? s.scope name :=
    hc.lookup? hg.heap.nested hg.scope name
  rw [lookup, lookup, hlookup]
  cases s.heap.lookup? s.scope name <;> exact follows_keep hc rfl rfl

omit hg hnew in
/-- A property is read alike. -/
theorem readProperty_follows (o : InstanceId) (name : String) :
    Follows k hollow s.heap.scopes.size (readProperty o name frames s)
      (readProperty o name (frames.map (Frame.onto k)) (s.onto k scopes)) := by
  have hproperty : (s.onto k scopes).heap.property o name = s.heap.property o name := Heap.property_onto o
  rw [readProperty, readProperty, hproperty]
  cases s.heap.property o name <;> exact follows_keep hc rfl rfl

omit hnew in
/-- A method of the parent is read alike. -/
theorem readSuper_follows (name : String) :
    Follows k hollow s.heap.scopes.size (readSuper name frames s)
      (readSuper name (frames.map (Frame.onto k)) (s.onto k scopes)) := by
  have hlookup (name : String) : (s.onto k scopes).heap.lookup? (s.onto k scopes).scope name =
      s.heap.lookup? s.scope name := hc.lookup? hg.heap.nested hg.scope name
  have hsuper : superClass (s.onto k scopes) = superClass s := by rw [superClass, superClass, hlookup]
  have hthis : thisInstance (s.onto k scopes) = thisInstance s := by rw [thisInstance, thisInstance, hlookup]
  have hmethod (c : ClassId) : (s.onto k scopes).heap.findMethod? c name = s.heap.findMethod? c name :=
    Heap.findMethod?_onto c
  rw [readSuper, readSuper, hsuper, hthis]
  cases superClass s with
  | error e => exact follows_keep hc rfl rfl
  | ok c =>
    cases thisInstance s with
    | error e => exact follows_keep hc rfl rfl
    | ok o =>
      dsimp only
      rw [hmethod]
      cases s.heap.findMethod? c name <;> exact follows_keep hc rfl rfl

/-- An expression is begun alike. -/
theorem evaluate_follows (e : Expr) :
    Follows k hollow s.heap.scopes.size (evaluate settings e frames s)
      (evaluate settings e (frames.map (Frame.onto k)) (s.onto k scopes)) := by
  cases e with
  | list items => exact gather_follows hg hnew hc settings .elements [] items
  | «variable» name => exact lookup_follows hg hc name
  | this => exact lookup_follows hg hc thisName
  | super method => exact readSuper_follows hg hc method
  | _ => exact follows_keep hc rfl rfl

/-- A class is declared alike. -/
theorem declareClass_follows (name : String) (parent : Option ClassId) (ds : List FunDecl)
    (hsolid : ¬hollow s.scope) :
    Follows k hollow s.heap.scopes.size (declareClass name parent ds frames s)
      (declareClass name parent ds (frames.map (Frame.onto k)) (s.onto k scopes)) := by
  -- The scope of the methods is new on both sides. The name of the class is bound in the one around it.
  obtain ⟨k₁, hagree, hself, hopen⟩ := hc.newScope hg.heap hg.scope hnew
  have hthere : s.heap.scopes.size < (s.heap.newScope (some s.scope)).2.scopes.size := by simp
  have hsuper : Contracts k₁ hollow (s.heap.withSuper s.scope parent)
      ((s.heap.onto k scopes).withSuper (k s.scope) parent) := by
    have hdefine : Contracts k₁ hollow _ (((s.heap.onto k scopes).newScope (some (k s.scope))).2.define
      (k₁ ⟨s.heap.scopes.size⟩) superName (parentValue parent)) := hopen.define hthere hnew _ _
    rw [hself] at hdefine
    exact hdefine
  have htable : (declareMethods ((s.heap.onto k scopes).withSuper (k s.scope) parent) ⟨scopes.size⟩ ds).1 =
      (declareMethods (s.heap.withSuper s.scope parent) ⟨s.heap.scopes.size⟩ ds).1 :=
    Heap.declareMethods_fst_congr ds (Array.size_map ..)
  have hclass := hsuper.addClass (Heap.methodClosures ⟨s.heap.scopes.size⟩ ds)
    ⟨name, parent, .ofList (declareMethods (s.heap.withSuper s.scope parent) ⟨s.heap.scopes.size⟩ ds).1⟩
  rw [Heap.map_onto_methodClosures, hself] at hclass
  have hhere : s.scope.index < (s.heap.withSuper s.scope parent).scopes.size :=
    Nat.lt_of_lt_of_le hg.scope (by simp [Heap.withSuper])
  have hdefine := hclass.define hhere hsolid name (.classObject ⟨s.heap.classes.size⟩)
  rw [hagree s.scope hg.scope] at hdefine
  have hright : declaredHeap name parent ds (s.onto k scopes) =
      (((s.heap.onto k scopes).withSuper (k s.scope) parent).addClass
        (Heap.methodClosures ⟨(s.heap.onto k scopes).scopes.size⟩ ds)
        ⟨name, parent, .ofList (declareMethods (s.heap.withSuper s.scope parent) ⟨s.heap.scopes.size⟩ ds).1⟩).define
          (k s.scope) name (.classObject ⟨s.heap.classes.size⟩) := by
    rw [← htable]
    rfl
  rw [← hright] at hdefine
  rw [declareClass_eq, declareClass_eq]
  refine follows_of_contracts hagree hdefine rfl (map_onto_congr hg.frames hagree).symm ?_
  have hscope : k₁ s.scope = k s.scope := hagree s.scope hg.scope
  simp only [yield, hscope]
  rfl

/-- A statement is begun alike; if it declares names then in a scope that is not hollow. -/
theorem execute_follows (st : Stmt) (hsolid : st.Declares → ¬hollow s.scope) :
    Follows k hollow s.heap.scopes.size (execute st frames s)
      (execute st (frames.map (Frame.onto k)) (s.onto k scopes)) := by
  cases st with
  | varDecl name init =>
    cases init with
    | none => exact follows_define hc hg.scope (hsolid trivial) rfl rfl
    | some init => exact follows_keep hc rfl rfl
  | funDecl d =>
    have hfunction : Contracts k hollow (s.heap.newFunction ⟨d, s.scope⟩).2
        ((s.heap.onto k scopes).newFunction ⟨d, k s.scope⟩).2 := hc.newFunction ⟨d, s.scope⟩
    have hdefine := hfunction.define hg.scope (hsolid trivial) d.name (.function ⟨s.heap.functions.size⟩)
    have hright : (execute (.funDecl d) (frames.map (Frame.onto k)) (s.onto k scopes)).state.heap =
        ((s.heap.onto k scopes).newFunction ⟨d, k s.scope⟩).2.define (k s.scope) d.name
          (.function ⟨s.heap.functions.size⟩) := by
      have hsize : (s.heap.onto k scopes).functions.size = s.heap.functions.size := Array.size_map ..
      rw [← hsize]
      rfl
    rw [← hright] at hdefine
    exact follows_of_contracts (fun _ _ => rfl) hdefine rfl rfl rfl
  | classDecl name parent ds =>
    cases parent with
    | none => exact declareClass_follows hg hnew hc name none ds (hsolid trivial)
    | some parent =>
      have hlookup : (s.onto k scopes).heap.lookup? (s.onto k scopes).scope parent = s.heap.lookup? s.scope parent :=
        hc.lookup? hg.heap.nested hg.scope parent
      rw [execute, execute, hlookup]
      cases s.heap.lookup? s.scope parent with
      | none => exact follows_keep hc rfl rfl
      | some v =>
        cases v with
        | classObject c => exact declareClass_follows hg hnew hc name (some c) ds (hsolid trivial)
        | _ => exact follows_keep hc rfl rfl
  | block body =>
    obtain ⟨k₁, hagree, hself, hopen⟩ := hc.newScope hg.heap hg.scope hnew
    refine follows_of_contracts hagree hopen rfl ?_ (congrArg (State.mk _ · _ _ _ _) hself.symm)
    change _ :: .leaveBlock (k s.scope) :: frames.map (Frame.onto k) = _ :: .leaveBlock (k₁ s.scope) :: frames.map _
    rw [map_onto_congr hg.frames hagree, hagree s.scope hg.scope]
    rfl
  | returnValue value => cases value <;> exact follows_keep hc rfl rfl
  | _ => exact follows_keep hc rfl rfl

/-- A value is handed on alike. -/
theorem resume_follows (v : Value) (hdeclares : frame.Declares → ¬hollow s.scope) :
    Follows k hollow s.heap.scopes.size (resume settings frame v frames s)
      (resume settings (frame.onto k) v (frames.map (Frame.onto k)) (s.onto k scopes)) := by
  cases frame with
  | rightOperand left op =>
    have hbinary : (s.onto k scopes).heap.binary op left v = s.heap.binary op left v := Heap.binary_onto op left v
    simp only [resume, Frame.onto, hbinary]
    exact follows_keep hc rfl rfl
  | connective op right =>
    simp only [resume, Frame.onto]
    split_ifs <;> exact follows_keep hc rfl rfl
  | callee arguments => exact gather_follows hg hnew hc settings (.arguments v) [] arguments
  | gather purpose done todo => exact gather_follows hg hnew hc settings purpose (v :: done) todo
  -- A hollow scope binds nothing, so the name is found in a solid one, whose counterpart is bound like it.
  | assign target =>
    have hlocate : (s.onto k scopes).heap.locate? (s.onto k scopes).scope target =
        (s.heap.locate? s.scope target).map fun found => (k found.1, found.2) :=
      hc.locate? hg.heap.nested hg.scope target
    simp only [resume, Frame.onto, hlocate]
    cases hfound : s.heap.locate? s.scope target with
    | none => exact follows_keep hc rfl rfl
    | some found =>
      obtain ⟨hthere, hsolid⟩ := hc.solid_of_locate? hfound
      exact follows_define hc hthere hsolid rfl rfl
  | propertyOwner property =>
    cases v with
    | instanceObject o => exact readProperty_follows hc o property
    | _ => exact follows_keep hc rfl rfl
  | fieldOwner property value => cases v <;> exact follows_keep hc rfl rfl
  | elementOwner position => cases v <;> exact follows_keep hc rfl rfl
  | elementPosition id =>
    have hslot : (s.onto k scopes).heap.slot id v = s.heap.slot id v := Heap.slot_onto id v
    simp only [resume, Frame.onto, hslot]
    exact follows_keep hc rfl rfl
  | updateOwner position value => cases v <;> exact follows_keep hc rfl rfl
  | updateValue id position =>
    have hslot : (s.onto k scopes).heap.slot id position = s.heap.slot id position := Heap.slot_onto id position
    simp only [resume, Frame.onto, hslot]
    cases s.heap.slot id position <;> exact follows_keep hc rfl rfl
  -- What declares is run in no hollow scope.
  | define name => exact follows_define hc hg.scope (hdeclares trivial) rfl rfl
  | print =>
    have htext : (s.onto k scopes).heap.text v = s.heap.text v := Heap.text_onto v
    have hrefusal : (s.onto k scopes).refusal? (s.onto k scopes).output = s.refusal? s.output := rfl
    simp only [resume, Frame.onto, printLine, htext, hrefusal]
    split <;> exact follows_keep hc rfl rfl
  | branch thenBranch elseBranch =>
    simp only [resume, Frame.onto]
    split_ifs
    · exact follows_keep hc rfl rfl
    · cases elseBranch <;> exact follows_keep hc rfl rfl
  | loopTest test body =>
    simp only [resume, Frame.onto]
    split_ifs <;> exact follows_keep hc rfl rfl
  | statements rest => cases rest <;> exact follows_keep hc rfl rfl
  | _ => exact follows_keep hc rfl rfl

omit hg hnew in
/-- Another completion is handed on alike. -/
theorem unwind_follows (completion : Completion) :
    Follows k hollow s.heap.scopes.size (unwind frame completion frames s)
      (unwind (frame.onto k) completion (frames.map (Frame.onto k)) (s.onto k scopes)) := by
  cases frame with
  | loopBody test body => cases completion <;> exact follows_keep hc rfl rfl
  | leaveFunction outer => cases completion <;> exact follows_keep hc rfl rfl
  | _ => exact follows_keep hc rfl rfl

end

/-! ## Steps and runs -/

/-- A configuration mirrors another one that has no hollow scopes: all its scopes are there, its code declares names in
no hollow one, its heap contracts, and everything else is the same in renamed scopes. -/
structure Mirrors (hollow : ScopeId → Prop) (k : ScopeId → ScopeId) (c d : Config) : Prop where
  grounded : c.IsGrounded
  confined : c.Confined (fun t => ¬hollow t) c.state.heap
  contracts : Contracts k hollow c.state.heap d.state.heap
  same : d = c.onto k d.state.heap.scopes

/-- Steps are alike. -/
theorem step_follows (settings : Settings) (hg : c.IsGrounded) (hconfined : c.Confined (fun t => ¬hollow t) heap)
    (hc : Contracts k hollow c.state.heap (c.state.heap.onto k scopes)) :
    Follows k hollow c.state.heap.scopes.size (step settings c) (step settings (c.onto k scopes)) := by
  obtain ⟨focus, frames, s⟩ := c
  have hnew : ¬hollow ⟨s.heap.scopes.size⟩ := hconfined.own_next
  have hidle : IsGrounded ⟨.deliver (.value .nil), frames, s⟩ := hg.keep (.refl s) hg.frames
  cases focus with
  | evaluate e => exact evaluate_follows hidle hnew hc e
  | execute st => exact execute_follows hidle hnew hc st hconfined.focus
  | deliver completion =>
    cases frames with
    | nil => exact follows_keep hc rfl rfl
    | cons frame frames =>
      have hrest : IsGrounded ⟨.deliver (.value .nil), frames, s⟩ :=
        hg.keep (.refl s) (List.forall_mem_cons.1 hg.frames).2
      cases completion with
      | value v => exact resume_follows hrest hnew hc v hconfined.frames.1
      | error e => exact unwind_follows hc (.error e)
      | returned v => exact unwind_follows hc (.returned v)
      | broke => exact unwind_follows hc .broke

/-- Everything but the heap is the same in renamed scopes. -/
theorem Mirrors.exists_scopes (hm : c.Mirrors hollow k d) : ∃ scopes, d = c.onto k scopes :=
  ⟨d.state.heap.scopes, hm.same⟩

/-- What mirrors another configuration still does so after a step of both. -/
theorem Mirrors.step (hm : c.Mirrors hollow k d) (settings : Settings) :
    ∃ k', AgreeBelow c.state.heap.scopes.size k k' ∧ (step settings c).Mirrors hollow k' (step settings d) := by
  obtain ⟨scopes, rfl⟩ := hm.exists_scopes
  obtain ⟨hg, hconfined, hc, -⟩ := hm
  obtain ⟨k', scopes', hagree, hcontracts, hsame⟩ := step_follows settings hg hconfined hc
  have hnext : (Config.step settings c).Confined (fun t => ¬hollow t) c.state.heap :=
    (step_moves settings c).confined hconfined
  refine ⟨k', hagree, (step_moves settings c).isGrounded hg,
    ⟨hnext.focus, hnext.frames, hnext.young, .of_eq rfl⟩, ?_, ?_⟩
  · rw [hsame]
    exact hcontracts
  · rw [hsame]
    rfl

/-- Nothing is left to do in the one configuration if nothing is left to do in the other. -/
theorem Mirrors.isFinal_iff (hm : c.Mirrors hollow k d) : d.IsFinal ↔ c.IsFinal := by
  obtain ⟨scopes, rfl⟩ := hm.exists_scopes
  obtain ⟨focus, frames, s⟩ := c
  constructor
  · rintro ⟨completion, s', hc⟩
    obtain ⟨rfl, hframes, -⟩ := Config.mk.inj hc
    exact ⟨completion, s, congrArg (Config.mk _ · s) (List.map_eq_nil_iff.1 hframes)⟩
  · rintro ⟨completion, s', hc⟩
    obtain ⟨rfl, rfl, -⟩ := Config.mk.inj hc
    exact ⟨completion, s.onto k scopes, rfl⟩

/-- What mirrors another configuration still does so after runs of both, as long as each other. -/
theorem Mirrors.advance (settings : Settings) (n : Nat) (hm : c.Mirrors hollow k d) :
    ∃ k', AgreeBelow c.state.heap.scopes.size k k' ∧
      (c.advance settings n).Mirrors hollow k' (d.advance settings n) := by
  induction n generalizing c d k with
  | zero => exact ⟨k, fun _ _ => rfl, hm⟩
  | succ n ih =>
    by_cases hfinal : c.IsFinal
    · obtain ⟨completion', s', hd⟩ := hm.isFinal_iff.2 hfinal
      obtain ⟨completion, s, hc⟩ := hfinal
      subst hc hd
      rw [advance_final, advance_final]
      exact ⟨k, fun _ _ => rfl, hm⟩
    · rw [advance_succ hfinal, advance_succ fun hd => hfinal (hm.isFinal_iff.1 hd)]
      obtain ⟨k₁, hagree₁, hm₁⟩ := hm.step settings
      obtain ⟨k₂, hagree₂, hm₂⟩ := ih hm₁
      -- Heaps only grow, so the renaming of the scopes that were there is the first one still.
      have hgrows := ((step_moves settings c).confined hm.confined).heap.grows
      exact ⟨k₂, fun t ht => (hagree₂ t (Nat.lt_of_lt_of_le ht hgrows)).trans (hagree₁ t ht), hm₂⟩

/-- What has been printed is the same. -/
theorem Mirrors.output (hm : c.Mirrors hollow k d) : d.state.output = c.state.output := by
  rw [hm.same]
  rfl

/-- Both show the same. -/
theorem Mirrors.shows_iff (hm : c.Mirrors hollow k d) {output : String} :
    d.Shows settings output ↔ c.Shows settings output := by
  refine exists_congr fun n => ?_
  obtain ⟨k', -, hm'⟩ := hm.advance settings n
  rw [hm'.output]

/-- Where the one ends, the other one ends with the same completion, and still mirrors it. -/
theorem Mirrors.finishes {completion : Completion} (hm : c.Mirrors hollow k d)
    (hc : c.Finishes settings completion s) : ∃ u k', AgreeBelow c.state.heap.scopes.size k k' ∧
      c.state.heap.scopes.size ≤ s.heap.scopes.size ∧ d.Finishes settings completion u ∧
      Mirrors hollow k' ⟨.deliver completion, [], s⟩ ⟨.deliver completion, [], u⟩ := by
  obtain ⟨n, hn⟩ := hc
  obtain ⟨k', hagree, hm'⟩ := hm.advance settings n
  have hgrows := (advance_confined settings n hm.confined).heap.grows
  rw [hn] at hm' hgrows
  obtain ⟨completion', u, hd⟩ := hm'.isFinal_iff.2 ⟨completion, s, rfl⟩
  rw [hd] at hm'
  obtain ⟨hfocus, -, -⟩ := Config.mk.inj hm'.same
  obtain rfl := Focus.deliver.inj hfocus
  exact ⟨u, k', hagree, hgrows, ⟨n, hd⟩, hm'⟩

/-- And the other way round. -/
theorem Mirrors.finishes_of {completion : Completion} {u : State} (hm : c.Mirrors hollow k d)
    (hd : d.Finishes settings completion u) : ∃ s k', AgreeBelow c.state.heap.scopes.size k k' ∧
      c.state.heap.scopes.size ≤ s.heap.scopes.size ∧ c.Finishes settings completion s ∧
      Mirrors hollow k' ⟨.deliver completion, [], s⟩ ⟨.deliver completion, [], u⟩ := by
  obtain ⟨n, hn⟩ := hd
  obtain ⟨k', hagree, hm'⟩ := hm.advance settings n
  obtain ⟨completion', s, hc⟩ := hm'.isFinal_iff.1 ⟨completion, u, hn⟩
  obtain ⟨u', k'', hagree', hgrows, hfinishes, hm''⟩ := hm.finishes ⟨n, hc⟩
  obtain ⟨rfl, rfl⟩ := hfinishes.unique ⟨n, hn⟩
  exact ⟨s, k'', hagree', hgrows, ⟨n, hc⟩, hm''⟩

end Config

end Lox
