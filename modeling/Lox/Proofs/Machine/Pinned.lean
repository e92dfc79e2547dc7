import Lox.Proofs.Heap.Inert
import Lox.Proofs.Machine.Nesting

/-!
# Every step agrees with the nesting

A configuration that agrees with its nesting is followed by one that agrees with the nesting after the step
(`Pinned.step`), and its heap is extended. There is one lemma for each part of a step.
-/

namespace Lox

variable {n n' : Nesting} {r : Declarations} {h h' : Heap} {s s' : State} {frames : List Frame} {frame : Frame}
  {v : Value} {vs : List Value} {c : Config}

/-! ## Values -/

/-- A value that refers to no object is plain. -/
theorem Value.IsInert.isPlain (hv : v.IsInert) : v.IsPlain r h := by
  cases v with
  | function f => exact hv.elim
  | boundMethod b => exact hv.elim
  | _ => trivial

/-- The values of an answer are plain. -/
def Builtin.Answer.IsSound (r : Declarations) (h : Heap) : Builtin.Answer → Prop
  | value v => v.IsPlain r h
  | elements xs => ∀ v ∈ xs, v.IsPlain r h

/-- What a builtin answers is plain if its arguments and the elements of sequences are. -/
theorem Builtin.run_isSound {b : Builtin} {time : Float} {a : Builtin.Answer} (hrun : b.run time vs h = .ok a)
    (hsequences : ∀ id, ∀ v ∈ h.sequence id, v.IsPlain r h) (hvs : ∀ v ∈ vs, v.IsPlain r h) : a.IsSound r h := by
  have hplain (v : Value) (hv : a.Mentions v) : v.IsPlain r h := by
    rcases mentions_of_run hrun hv with hinert | hargument | ⟨id, helement⟩
    · exact hinert.isPlain
    · exact hvs v hargument
    · exact hsequences id v helement
  cases a with
  | value v => exact hplain v rfl
  | elements xs => exact hplain

/-! ## Configurations -/

/-- What was printed, read or counted does not matter. -/
theorem Stands.congr (hstands : Stands n frames s) (hheap : s'.heap = s.heap) (hscope : s'.scope = s.scope) :
    Stands n frames s' := by
  obtain ⟨hsound, hsees, hframed⟩ := hstands
  exact ⟨by rwa [hheap], by rwa [hheap, hscope], by rwa [hheap]⟩

/-- A sound frame can be added. -/
theorem Stands.push (hstands : Stands n frames s) (hframe : frame.IsSound n.declarations s.heap) :
    Stands n (frame :: frames) s :=
  ⟨hstands.sound, hstands.sees, .other hframe hstands.framed⟩

/-- The heap may grow. -/
theorem Stands.grow (hstands : Stands n frames s)
    (hgrown : h'.Sound n.declarations ∧ s.heap.Extends n.declarations n.declarations h') :
    Stands n frames { s with heap := h' } :=
  ⟨hgrown.1, hstands.sees.extend hgrown.2, hstands.framed.extend hgrown.2⟩

/-- The next configuration has the same state. -/
theorem Stands.continues (hstands : Stands n frames s) {focus : Focus}
    (hfocus : focus.IsSound n.declarations s.heap) : Continues n s.heap n ⟨focus, frames, s⟩ :=
  ⟨⟨hstands, hfocus⟩, .refl hstands.sound.nested⟩

/-- The next configuration has the same heap and scope. -/
theorem Stands.continues_congr (hstands : Stands n frames s) {focus : Focus}
    (hfocus : focus.IsSound n.declarations s.heap) (hheap : s'.heap = s.heap) (hscope : s'.scope = s.scope) :
    Continues n s.heap n ⟨focus, frames, s'⟩ := by
  have hcontinues : Continues n s'.heap n ⟨focus, frames, s'⟩ :=
    (hstands.congr hheap hscope).continues (by rwa [hheap])
  rwa [hheap] at hcontinues

/-- The next configuration has a grown heap. -/
theorem Stands.continues_grow (hstands : Stands n frames s)
    (hgrown : h'.Sound n.declarations ∧ s.heap.Extends n.declarations n.declarations h') {focus : Focus}
    (hfocus : focus.IsSound n.declarations h') : Continues n s.heap n ⟨focus, frames, { s with heap := h' }⟩ :=
  ⟨⟨hstands.grow hgrown, hfocus⟩, hgrown.2⟩

/-- What a name means is plain. -/
theorem Stands.isPlain_of_lookup? (hstands : Stands n frames s) {scope : ScopeId} {name : String}
    (hv : s.heap.lookup? scope name = some v) : v.IsPlain n.declarations s.heap := by
  obtain ⟨t, ht⟩ := Heap.exists_own_of_lookup? hv
  exact hstands.sound.values v (.bound ht)

namespace Config

variable {settings : Settings}

/-! ## Calls -/

/-- Parameters are bound to plain values. -/
theorem bindParameters_sound (scope : ScopeId) : ∀ {names : List String} {vs : List Value} {h : Heap},
    h.Sound r → (∀ x ∈ names, Bindable x) → (∀ v ∈ vs, v.IsPlain r h) →
    (bindParameters h scope names vs).Sound r ∧ h.Extends r r (bindParameters h scope names vs)
  | [], _, _, hsound, _, _ => ⟨hsound, .refl hsound.nested⟩
  | _ :: _, [], _, hsound, _, _ => ⟨hsound, .refl hsound.nested⟩
  | name :: names, v :: vs, h, hsound, hnames, hvs => by
    obtain ⟨hdefined, hgrown⟩ := hsound.define (s := scope) (hnames name List.mem_cons_self) (hvs v List.mem_cons_self)
    obtain ⟨hbound, hgrown'⟩ := bindParameters_sound scope hdefined (fun x hx => hnames x (List.mem_cons_of_mem _ hx))
      fun w hw => (hvs w (List.mem_cons_of_mem _ hw)).extend hgrown
    exact ⟨hbound, hgrown.trans hgrown'⟩

/-- A function's code is entered in a scope that sees what the code stands for. -/
theorem enter_continues_of_sees {home : Home} {scope : ScopeId} {d : FunDecl} (hstands : Stands n frames s)
    (hgrown : h'.Sound n.declarations ∧ s.heap.Extends n.declarations n.declarations h')
    (hsees : h'.Sees n.declarations scope home) (hd : d.BindsOnly Bindable)
    (hvs : ∀ v ∈ vs, v.IsPlain n.declarations s.heap) :
    Continues n s.heap { n with home := home, callers := n.home :: n.callers }
      ⟨.deliver (.value .nil), .statements d.body :: .leaveFunction s.scope :: frames,
        { s with heap := bindParameters h' scope d.parameters vs, scope }⟩ := by
  obtain ⟨name, parameters, body⟩ := d
  obtain ⟨-, hparameters, hbody⟩ := hd
  obtain ⟨hsound, hgrown'⟩ := bindParameters_sound scope hgrown.1 hparameters
    fun v hv => (hvs v hv).extend hgrown.2
  have hall := hgrown.2.trans hgrown'
  refine ⟨⟨⟨hsound, hsees.extend hgrown', .other hbody (.leaveFunction ?_ ?_)⟩, trivial⟩, hall⟩
  · exact hstands.sees.extend hall
  · exact hstands.framed.extend hall

/-- A function that is no method is entered. -/
theorem enter_function_continues {f : FunctionId} (hstands : Stands n frames s)
    (hf : (Value.function f).IsPlain n.declarations s.heap) (hvs : ∀ v ∈ vs, v.IsPlain n.declarations s.heap) :
    Continues n s.heap (n.enter f none) (enter f none vs frames s) := by
  obtain ⟨hthere, home, horigin⟩ := hf
  have hclosed := hstands.sound.functions f hthere
  have hsees := hclosed.code home horigin
  have hhome : n.enter f none = { n with home := home, callers := n.home :: n.callers } := by
    rw [Nesting.enter, horigin]
    rfl
  rw [hhome]
  exact enter_continues_of_sees hstands (hstands.sound.newScope hsees.there)
    (hsees.newScope hstands.sound.nested) hclosed.binds hvs

/-- A method is entered on an instance. -/
theorem enter_method_continues {f : FunctionId} {c : ClassId} {o : InstanceId} (hstands : Stands n frames s)
    (hf : s.heap.IsMethod n.declarations c f) (hvs : ∀ v ∈ vs, v.IsPlain n.declarations s.heap) :
    Continues n s.heap (n.enter f (some o)) (enter f (some o) vs frames s) := by
  obtain ⟨hthere, horigin⟩ := hf
  have hclosed := hstands.sound.functions f hthere
  obtain ⟨hc, hsuper⟩ := hclosed.method c horigin
  have hhome : n.enter f (some o) = { n with home := some (c, o), callers := n.home :: n.callers } := by
    rw [Nesting.enter, horigin]
    rfl
  rw [hhome]
  exact enter_continues_of_sees hstands
    (hstands.sound.newScope_define thisName (v := .instanceObject o) hclosed.there trivial)
    (Heap.sees_receiver hstands.sound.nested hclosed.there hc hsuper) hclosed.binds hvs

/-- An instance more changes no class. -/
theorem findMethod?_newInstance (c : ClassId) {c' : ClassId} {name : String} :
    (h.newInstance c).2.findMethod? c' name = h.findMethod? c' name := by
  have hwalk : ∀ (m : Nat) (c' : ClassId),
      (h.newInstance c).2.findMethodWithin name m c' = h.findMethodWithin name m c' := by
    intro m
    induction m with
    | zero => exact fun _ => rfl
    | succ m ih =>
      intro c'
      have hclass : (h.newInstance c).2.classOf c' = h.classOf c' := rfl
      simp only [Heap.findMethodWithin, hclass, ih]
  exact hwalk _ c'

/-- A value is run. -/
theorem invoke_continues {callee : Value} (hstands : Stands n frames s)
    (hcallee : callee.IsPlain n.declarations s.heap) (hvs : ∀ v ∈ vs, v.IsPlain n.declarations s.heap) :
    Continues n s.heap (n.invoked callee s) (invoke settings callee vs frames s) := by
  cases callee with
  | function f => exact enter_function_continues hstands hcallee hvs
  | boundMethod b =>
    obtain ⟨c, hc⟩ := hstands.sound.boundMethods b hcallee
    exact enter_method_continues hstands hc hvs
  | builtin b =>
    simp only [invoke]
    split
    · rename_i v hrun
      exact hstands.continues_congr (Builtin.run_isSound hrun hstands.sound.sequences hvs) rfl rfl
    · rename_i xs hrun
      have helements := Builtin.run_isSound hrun hstands.sound.sequences hvs
      exact hstands.continues_grow (hstands.sound.newSequence helements) trivial
    · exact hstands.continues trivial
  | classObject c =>
    -- The instance comes first, and the initializer, if there is one, runs on it.
    have hgrown := hstands.sound.newInstance c
    have hsame : (s.heap.newInstance c).2.findMethod? c initializerName = s.heap.findMethod? c initializerName :=
      findMethod?_newInstance c
    simp only [invoke, Nesting.invoked, Heap.entered?, hsame]
    cases hinit : s.heap.findMethod? c initializerName with
    | none => exact hstands.continues_grow hgrown trivial
    | some f =>
      obtain ⟨c', hc'⟩ := hstands.sound.isMethod_of_findMethod? hinit
      have hconstruct : Stands n (.construct ⟨s.heap.instances.size⟩ :: frames) { s with heap := _ } :=
        (hstands.grow hgrown).push trivial
      have hentered := enter_method_continues (o := ⟨s.heap.instances.size⟩) hconstruct (hc'.extend hgrown.2)
        fun v hv => (hvs v hv).extend hgrown.2
      exact ⟨hentered.pinned, hgrown.2.trans hentered.grown⟩
  | _ => exact hstands.continues trivial

/-- A value is called. -/
theorem apply_continues {callee : Value} (hstands : Stands n frames s)
    (hcallee : callee.IsPlain n.declarations s.heap) (hvs : ∀ v ∈ vs, v.IsPlain n.declarations s.heap) :
    Continues n s.heap (n.applied settings callee vs s) (apply settings callee vs frames s) := by
  unfold apply Nesting.applied
  cases s.heap.callable? callee with
  | none => exact hstands.continues trivial
  | some nameArity =>
    dsimp only
    split_ifs
    · exact hstands.continues trivial
    · exact hstands.continues trivial
    · -- Only the number of calls is raised before the value is run.
      have hcall : Stands n (.leaveCall :: frames) { s with depth := s.depth + 1 } :=
        Stands.push (hstands.congr rfl rfl) trivial
      exact invoke_continues hcall hcallee hvs

/-- Several expressions are gone on with. -/
theorem gather_continues {purpose : Gathering} {todo : List Expr} (hstands : Stands n frames s)
    (hpurpose : purpose.IsSound n.declarations s.heap) (hvs : ∀ v ∈ vs, v.IsPlain n.declarations s.heap)
    (htodo : Expr.AllBindOnly Bindable todo) :
    Continues n s.heap (n.gathered settings purpose vs todo s) (gather settings purpose vs todo frames s) := by
  cases todo with
  | cons e rest =>
    obtain ⟨he, hrest⟩ := htodo
    exact ⟨⟨hstands.push ⟨hpurpose, hvs, hrest⟩, he⟩, .refl hstands.sound.nested⟩
  | nil =>
    have hdone : ∀ v ∈ vs.reverse, v.IsPlain n.declarations s.heap := fun v hv => hvs v (List.mem_reverse.1 hv)
    cases purpose with
    | elements =>
      exact hstands.continues_grow (hstands.sound.newSequence fun v hv => hdone v (List.mem_toArray.1 hv)) trivial
    | arguments callee => exact apply_continues hstands hpurpose hdone

/-! ## Names, properties and classes -/

/-- A name is looked up. -/
theorem lookup_continues {name : String} (hstands : Stands n frames s) :
    Continues n s.heap n (lookup name frames s) := by
  unfold lookup
  split
  · rename_i v hv
    exact hstands.continues (hstands.isPlain_of_lookup? hv)
  · exact hstands.continues trivial

/-- A method is bound to an instance. -/
theorem bindMethod_continues {o : InstanceId} {c : ClassId} {f : FunctionId} (hstands : Stands n frames s)
    (hf : s.heap.IsMethod n.declarations c f) : Continues n s.heap n (bindMethod o f frames s) := by
  have hthere :
      (⟨s.heap.boundMethods.size⟩ : BoundMethodId).index < (s.heap.newBoundMethod o f).2.boundMethods.size := by
    simp [Heap.newBoundMethod]
  exact hstands.continues_grow (hstands.sound.newBoundMethod hf) hthere

/-- A property is read. -/
theorem readProperty_continues {o : InstanceId} {name : String} (hstands : Stands n frames s) :
    Continues n s.heap n (readProperty o name frames s) := by
  unfold readProperty Heap.property
  cases hfield : (s.heap.instanceOf o).fields.find? name with
  | some v => exact hstands.continues (hstands.sound.values v (.field hfield))
  | none =>
    cases hmethod : s.heap.findMethod? (s.heap.instanceOf o).ofClass name with
    | some f =>
      obtain ⟨c, hc⟩ := hstands.sound.isMethod_of_findMethod? hmethod
      exact bindMethod_continues hstands hc
    | none => exact hstands.continues trivial

/-- A method of the parent is read. -/
theorem readSuper_continues {name : String} (hstands : Stands n frames s) :
    Continues n s.heap n (readSuper name frames s) := by
  unfold readSuper
  split
  · exact hstands.continues trivial
  · split
    · exact hstands.continues trivial
    · split
      · rename_i f hf
        obtain ⟨c, hc⟩ := hstands.sound.isMethod_of_findMethod? hf
        exact bindMethod_continues hstands hc
      · exact hstands.continues trivial

/-- The heap when a class has been declared: first its scope, then its methods and the class, and then its name. -/
def declaredHeap (name : String) (parent : Option ClassId) (ds : List FunDecl) (s : State) : Heap :=
  ((s.heap.withSuper s.scope parent).addClass (Heap.methodClosures ⟨s.heap.scopes.size⟩ ds)
    ⟨name, parent, .ofList (declareMethods (s.heap.withSuper s.scope parent) ⟨s.heap.scopes.size⟩ ds).1⟩).define
      s.scope name (.classObject ⟨s.heap.classes.size⟩)

/-- The declaration of a class changes nothing but the heap. -/
theorem declareClass_eq (name : String) (parent : Option ClassId) (ds : List FunDecl) (frames : List Frame)
    (s : State) :
    declareClass name parent ds frames s =
      yield .nil frames { s with heap := declaredHeap name parent ds s } := by
  obtain ⟨heap, hheap⟩ : ∃ heap, heap = s.heap.withSuper s.scope parent := ⟨_, rfl⟩
  obtain ⟨scope, hscope⟩ : ∃ scope : ScopeId, scope = ⟨s.heap.scopes.size⟩ := ⟨_, rfl⟩
  obtain ⟨cls, hcls⟩ : ∃ cls : Class, cls = ⟨name, parent, .ofList (declareMethods heap scope ds).1⟩ := ⟨_, rfl⟩
  calc
    declareClass name parent ds frames s = yield .nil frames { s with
        heap := ((declareMethods heap scope ds).2.newClass cls).2.define s.scope name
          (.classObject ((declareMethods heap scope ds).2.newClass cls).1) } := by
      rw [hcls, hscope, hheap]
      rfl
    _ = yield .nil frames { s with
        heap := (heap.addClass (Heap.methodClosures scope ds) cls).define s.scope name
          (.classObject ⟨heap.classes.size⟩) } := by
      rw [Heap.newClass_declareMethods]
    _ = yield .nil frames { s with heap := declaredHeap name parent ds s } := by
      rw [hcls, hscope, hheap]
      rfl

/-- A class is declared. -/
theorem declareClass_continues {name : String} (parent : Option ClassId) {ds : List FunDecl}
    (hstands : Stands n frames s) (hname : Bindable name) (hds : FunDecl.AllBindOnly Bindable ds) :
    Continues n s.heap { n with declarations := n.declarations.withClass s.heap (parentValue parent) }
      (declareClass name parent ds frames s) := by
  have hparent : (parentValue parent).IsPlain n.declarations s.heap := by
    cases parent <;> trivial
  -- The scope of the class.
  obtain ⟨hscoped, hgrown⟩ : (s.heap.withSuper s.scope parent).Sound n.declarations ∧
      s.heap.Extends n.declarations n.declarations (s.heap.withSuper s.scope parent) :=
    hstands.sound.newScope_define superName hstands.sees.there hparent
  have hthere : (⟨s.heap.scopes.size⟩ : ScopeId).index < (s.heap.withSuper s.scope parent).scopes.size := by
    simp [Heap.withSuper]
  have hsuper : (s.heap.withSuper s.scope parent).own ⟨s.heap.scopes.size⟩ superName = some (parentValue parent) := by
    rw [Heap.withSuper, Heap.own_define, if_pos ⟨rfl, rfl, by simp⟩]
  -- Its methods and the class itself.
  have hrecord : n.declarations.withClass (s.heap.withSuper s.scope parent) (parentValue parent) =
      n.declarations.withClass s.heap (parentValue parent) := rfl
  obtain ⟨hclass, hgrown'⟩ := hscoped.addClass name hds hthere hsuper rfl
  rw [hrecord] at hclass hgrown'
  -- Its name.
  obtain ⟨hnamed, hgrown''⟩ := hclass.define (s := s.scope) (v := .classObject ⟨s.heap.classes.size⟩) hname trivial
  have hall := hgrown.trans (hgrown'.trans hgrown'')
  rw [declareClass_eq]
  exact ⟨⟨⟨hnamed, hstands.sees.extend hall, hstands.framed.extend hall⟩, trivial⟩, hall⟩

/-! ## Expressions and statements -/

/-- An expression or a statement goes on with a part of it, and a frame is left behind. -/
theorem push_continues {focus : Focus} (hstands : Stands n frames s)
    (hframe : frame.IsSound n.declarations s.heap) (hfocus : focus.IsSound n.declarations s.heap) :
    Continues n s.heap n ⟨focus, frame :: frames, s⟩ :=
  (hstands.push hframe).continues hfocus

/-- An expression is begun. -/
theorem evaluate_continues {e : Expr} (hstands : Stands n frames s) (he : e.BindsOnly Bindable) :
    Continues n s.heap n (evaluate settings e frames s) := by
  cases e with
  | literal l =>
    have hliteral : l.value.IsPlain n.declarations s.heap := l.value_isInert.isPlain
    exact hstands.continues hliteral
  | group inner => exact hstands.continues he
  | unary op operand => exact push_continues hstands trivial he
  | binary left op right => exact push_continues hstands he.2 he.1
  | logical left op right => exact push_continues hstands he.2 he.1
  | ternary test ifTrue ifFalse => exact push_continues hstands he.2 he.1
  | list items =>
    have hgather : Continues n s.heap (n.gathered settings .elements [] items s)
        (gather settings .elements [] items frames s) := gather_continues hstands trivial nofun he
    cases items <;> exact hgather
  | «variable» name => exact lookup_continues hstands
  | this => exact lookup_continues hstands
  | super method => exact readSuper_continues hstands
  | assign target value => exact push_continues hstands he.1 he.2
  | call callee arguments => exact push_continues hstands he.2 he.1
  | get object property => exact push_continues hstands trivial he
  | set object property value => exact push_continues hstands he.2 he.1
  | index object position => exact push_continues hstands he.2 he.1
  | setIndex object position value => exact push_continues hstands he.2 he.1

/-- A statement is begun. -/
theorem execute_continues {st : Stmt} (hstands : Stands n frames s) (hst : st.BindsOnly Bindable) :
    Continues n s.heap (n.executed st s) (execute st frames s) := by
  cases st with
  | varDecl name init =>
    cases init with
    | none => exact hstands.continues_grow (hstands.sound.define (v := .nil) hst.1 trivial) trivial
    | some e => exact push_continues hstands hst.1 hst.2
  -- The function is put on record before its name is bound, so the value that is bound is a plain one.
  | funDecl d =>
    obtain ⟨hdeclared, hgrown⟩ := hstands.sound.newFunction hst hstands.sees
    have hname : Bindable d.name := by
      cases d
      exact hst.1
    have hplain : (Value.function ⟨s.heap.functions.size⟩).IsPlain (n.declarations.withFunction s.heap n.home)
        (s.heap.newFunction ⟨d, s.scope⟩).2 :=
      ⟨by simp [Heap.newFunction], n.home, if_neg (Nat.lt_irrefl _)⟩
    obtain ⟨hnamed, hgrown'⟩ := hdeclared.define (s := s.scope) hname hplain
    have hall := hgrown.trans hgrown'
    exact ⟨⟨⟨hnamed, hstands.sees.extend hall, hstands.framed.extend hall⟩, trivial⟩, hall⟩
  | classDecl name parent ds =>
    cases parent with
    | none => exact declareClass_continues none hstands hst.1 hst.2
    | some parent =>
      simp only [execute, Nesting.executed]
      cases s.heap.lookup? s.scope parent with
      | none => exact hstands.continues trivial
      | some v =>
        cases v with
        | classObject c => exact declareClass_continues (some c) hstands hst.1 hst.2
        | _ => exact hstands.continues trivial
  | expression e => exact push_continues hstands trivial hst
  | print e => exact push_continues hstands trivial hst
  | block body =>
    obtain ⟨hnew, hgrown⟩ := hstands.sound.newScope hstands.sees.there
    have hsees := hstands.sees.newScope hstands.sound.nested
    exact ⟨⟨⟨hnew, hsees, .other hst (.leaveBlock (hstands.sees.extend hgrown) (hstands.framed.extend hgrown))⟩,
      trivial⟩, hgrown⟩
  | conditional test thenBranch elseBranch =>
    cases elseBranch with
    | none => exact push_continues hstands ⟨hst.2, by simp⟩ hst.1
    | some other => exact push_continues hstands ⟨hst.2.1, fun _ hother => Option.some.inj hother ▸ hst.2.2⟩ hst.1
  | loop test body => exact push_continues hstands hst hst.1
  | breakLoop => exact hstands.continues trivial
  | returnValue value =>
    cases value with
    | none => exact hstands.continues trivial
    | some e => exact push_continues hstands trivial hst

/-! ## Frames -/

/-- A value or an error is handed on. -/
theorem settle_continues {result : Except RuntimeError Value} (hstands : Stands n frames s)
    (hresult : ∀ v, result = .ok v → v.IsPlain n.declarations s.heap) :
    Continues n s.heap n (settle result frames s) := by
  cases result with
  | ok v => exact hstands.continues (hresult v rfl)
  | error e => exact hstands.continues trivial

/-- The end of a function is reached. -/
theorem leave_continues {caller : Home} {callers : List Home} {outer : ScopeId} {completion : Completion}
    (hsound : s.heap.Sound n.declarations) (houter : s.heap.Sees n.declarations outer caller)
    (hframed : Framed n.declarations s.heap caller callers frames) (hcallers : n.callers = caller :: callers)
    (hcompletion : completion.IsSound n.declarations s.heap) :
    Continues n s.heap n.leave ⟨.deliver completion, frames, { s with scope := outer }⟩ := by
  have hleave : n.leave = { n with home := caller, callers := callers } := by
    rw [Nesting.leave, hcallers]
  rw [hleave]
  exact ⟨⟨⟨hsound, houter, hframed⟩, hcompletion⟩, .refl hsound.nested⟩

/-- The innermost frame takes a value. -/
theorem resume_continues (hstands : Stands n (frame :: frames) s) (hv : v.IsPlain n.declarations s.heap) :
    Continues n s.heap (n.resumed settings frame v s) (resume settings frame v frames s) := by
  obtain ⟨hsound, hsees, hframed⟩ := hstands
  -- Only the frames that end a block or a function say something of the scope to return to.
  generalize hhome : n.home = home at hframed
  generalize hcallers : n.callers = callers at hframed
  cases hframed with
  | leaveBlock houter hrest =>
    exact ⟨⟨⟨hsound, hhome ▸ houter, hhome ▸ hcallers ▸ hrest⟩, trivial⟩, .refl hsound.nested⟩
  -- The caller is at home again where it was before the call.
  | leaveFunction houter hrest => exact leave_continues hsound houter hrest hcallers trivial
  | other hframe hrest =>
    subst hhome hcallers
    have hstands : Stands n frames s := ⟨hsound, hsees, hrest⟩
    cases frame with
    | choice ifTrue ifFalse =>
      simp only [resume]
      split
      · exact hstands.continues hframe.1
      · exact hstands.continues hframe.2
    | leftOperand op right => exact push_continues hstands trivial hframe
    | rightOperand left op => exact settle_continues hstands fun _ hw => (Heap.isInert_of_binary hw).isPlain
    | operand op => exact settle_continues hstands fun _ hw => (Value.isInert_of_unary hw).isPlain
    | connective op right =>
      simp only [resume]
      split
      · exact hstands.continues hv
      · exact hstands.continues hframe
    | callee arguments => exact gather_continues hstands hv nofun hframe
    | gather purpose done todo =>
      obtain ⟨hpurpose, hdone, htodo⟩ := hframe
      refine gather_continues hstands hpurpose (fun w hw => ?_) htodo
      rcases List.mem_cons.1 hw with rfl | hw
      · exact hv
      · exact hdone w hw
    | assign target =>
      simp only [resume]
      split
      · exact hstands.continues_grow (hsound.define hframe hv) (hv.extend (hsound.define hframe hv).2)
      · exact hstands.continues trivial
    | propertyOwner property =>
      cases v with
      | instanceObject o => exact readProperty_continues hstands
      | _ => exact hstands.continues trivial
    | fieldOwner property value =>
      cases v with
      | instanceObject o => exact push_continues hstands trivial hframe
      | _ => exact hstands.continues trivial
    | fieldValue o property =>
      exact hstands.continues_grow (hsound.setField hv) (hv.extend (hsound.setField hv).2)
    | elementOwner position =>
      cases v with
      | sequence id => exact push_continues hstands trivial hframe
      | _ => exact hstands.continues trivial
    | elementPosition id =>
      refine settle_continues hstands fun w hw => ?_
      rcases Heap.isInert_or_mem_of_slot hw with hinert | helement
      · exact hinert.isPlain
      · exact hsound.sequences id w helement
    | updateOwner position value =>
      cases v with
      | sequence id => exact push_continues hstands hframe.2 hframe.1
      | _ => exact hstands.continues trivial
    | updatePosition id value => exact push_continues hstands trivial hframe
    | updateValue id position =>
      simp only [resume]
      split
      · exact hstands.continues_grow (hsound.setElement hv) (hv.extend (hsound.setElement hv).2)
      · exact hstands.continues trivial
    | define name => exact hstands.continues_grow (hsound.define hframe hv) trivial
    | discard => exact hstands.continues trivial
    | print =>
      simp only [resume, printLine]
      split <;> exact hstands.continues_congr trivial rfl rfl
    | branch thenBranch elseBranch =>
      simp only [resume]
      split
      · exact hstands.continues hframe.1
      · cases elseBranch with
        | none => exact hstands.continues trivial
        | some other => exact hstands.continues (hframe.2 other rfl)
    | loopTest test body =>
      simp only [resume]
      split
      · exact push_continues hstands hframe hframe.2
      · exact hstands.continues trivial
    | loopBody test body => exact push_continues hstands hframe hframe.1
    | returning => exact hstands.continues hv
    | statements rest =>
      cases rest with
      | nil => exact hstands.continues trivial
      | cons st rest => exact push_continues hstands hframe.2 hframe.1
    -- These two are above already, with the scopes that they return to.
    | leaveBlock outer => exact hframe.elim
    | leaveFunction outer => exact hframe.elim
    | construct o => exact hstands.continues trivial
    | leaveCall => exact hstands.continues_congr hv rfl rfl

/-- The innermost frame takes any other completion. -/
theorem unwind_continues (completion : Completion) (hstands : Stands n (frame :: frames) s)
    (hcompletion : completion.IsSound n.declarations s.heap) :
    Continues n s.heap (n.unwound frame) (unwind frame completion frames s) := by
  obtain ⟨hsound, hsees, hframed⟩ := hstands
  generalize hhome : n.home = home at hframed
  generalize hcallers : n.callers = callers at hframed
  cases hframed with
  | leaveBlock houter hrest =>
    exact ⟨⟨⟨hsound, hhome ▸ houter, hhome ▸ hcallers ▸ hrest⟩, hcompletion⟩, .refl hsound.nested⟩
  | leaveFunction houter hrest =>
    cases completion with
    | returned v => exact leave_continues hsound houter hrest hcallers hcompletion
    | broke => exact leave_continues hsound houter hrest hcallers trivial
    | _ => exact leave_continues hsound houter hrest hcallers hcompletion
  | other hframe hrest =>
    subst hhome hcallers
    have hstands : Stands n frames s := ⟨hsound, hsees, hrest⟩
    cases frame with
    | loopBody test body =>
      cases completion with
      | broke => exact hstands.continues trivial
      | _ => exact hstands.continues hcompletion
    | leaveBlock outer => exact hframe.elim
    | leaveFunction outer => exact hframe.elim
    | leaveCall => exact hstands.continues_congr hcompletion rfl rfl
    | _ => exact hstands.continues hcompletion

end Config

/-! ## Steps -/

/-- A step of a configuration that agrees with its nesting agrees with the nesting after it. -/
theorem Pinned.step (settings : Settings) (hpinned : Pinned n c) :
    Continues n c.state.heap (n.after settings c) (c.step settings) := by
  obtain ⟨hstands, hfocus⟩ := hpinned
  obtain ⟨focus, frames, s⟩ := c
  cases focus with
  | evaluate e => exact Config.evaluate_continues hstands hfocus
  | execute st => exact Config.execute_continues hstands hfocus
  | deliver completion =>
    cases frames with
    | nil => exact hstands.continues hfocus
    | cons frame frames =>
      cases completion with
      | value v => exact Config.resume_continues hstands hfocus
      | error e => exact Config.unwind_continues (.error e) hstands hfocus
      | returned v => exact Config.unwind_continues (.returned v) hstands hfocus
      | broke => exact Config.unwind_continues .broke hstands hfocus

end Lox
