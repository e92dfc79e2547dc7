import Lox.Proofs.Heap.Receivers
import Lox.Proofs.Machine.Pinned

/-!
# Every step keeps receivers fit

Whatever a configuration mentions anywhere (`Config.Mentions`) is there. If besides its heap is coherent, and the code
that runs and its callers run on instances of their classes (`Fitted`), then all this is so after the next step
(`Fitted.step`). There is one lemma for each part of a step; only a method of the parent depends on what the nesting
says of `super` and `this`.
-/

namespace Lox

variable {n : Nesting} {r : Declarations} {h h' : Heap} {s s' : State} {frames : List Frame} {frame : Frame}
  {focus : Focus} {v : Value} {vs : List Value} {c : Config} {settings : Settings}

/-! ## What is mentioned -/

/-- The value of a completion. -/
def Completion.Mentions (v : Value) : Completion → Prop
  | value w => w = v
  | returned w => w = v
  | _ => False

/-- The value in focus. -/
def Focus.Mentions (v : Value) : Focus → Prop
  | deliver completion => completion.Mentions v
  | _ => False

/-- What is called. -/
def Gathering.Mentions (v : Value) : Gathering → Prop
  | arguments callee => callee = v
  | elements => False

/-- The values that a frame keeps, and the objects that it is about to work on. -/
def Frame.Mentions (v : Value) : Frame → Prop
  | rightOperand left _ => left = v
  | gather purpose done _ => purpose.Mentions v ∨ v ∈ done
  | fieldValue owner _ => .instanceObject owner = v
  | elementPosition id => .sequence id = v
  | updatePosition id _ => .sequence id = v
  | updateValue id position => .sequence id = v ∨ position = v
  | construct o => .instanceObject o = v
  | _ => False

/-- A value that is in focus, or kept by a frame, or held by the heap. -/
inductive Config.Mentions (c : Config) (v : Value) : Prop
  | focus (hv : c.focus.Mentions v)
  | frame {frame : Frame} (hframe : frame ∈ c.frames) (hv : frame.Mentions v)
  | heap (hv : c.state.heap.Holds v)

/-! ## Fit configurations -/

/-- The heap is coherent, what the frames mention is there, and the running code and its callers run on instances of
their classes. -/
structure Coheres (n : Nesting) (frames : List Frame) (s : State) : Prop where
  heap : s.heap.Coherent n.declarations
  frames : ∀ frame ∈ frames, ∀ v, frame.Mentions v → v.IsThere s.heap
  homes : ∀ home ∈ n.home :: n.callers, s.heap.Suits home

/-- Also what is in focus is there. -/
structure Fitted (n : Nesting) (c : Config) : Prop where
  coheres : Coheres n c.frames c.state
  focus : ∀ v, c.focus.Mentions v → v.IsThere c.state.heap

/-- Everything that is mentioned is there. -/
theorem Fitted.isThere (hfitted : Fitted n c) (hv : c.Mentions v) : v.IsThere c.state.heap := by
  cases hv with
  | focus hv => exact hfitted.focus v hv
  | frame hframe hv => exact hfitted.coheres.frames _ hframe v hv
  | heap hv => exact hfitted.coheres.heap.values v hv

/-- Nothing but the heap matters. -/
theorem Coheres.congr (hco : Coheres n frames s) (hheap : s'.heap = s.heap) : Coheres n frames s' := by
  obtain ⟨hcoherent, hframes, hhomes⟩ := hco
  exact ⟨by rwa [hheap], by rwa [hheap], by rwa [hheap]⟩

/-- A frame can be added if what it mentions is there. -/
theorem Coheres.push (hco : Coheres n frames s) (hframe : ∀ v, frame.Mentions v → v.IsThere s.heap) :
    Coheres n (frame :: frames) s := by
  refine ⟨hco.heap, fun frame' hmem => ?_, hco.homes⟩
  rcases List.mem_cons.1 hmem with rfl | hmem
  · exact hframe
  · exact hco.frames frame' hmem

/-- A frame can be left out. -/
theorem Coheres.pop (hco : Coheres n (frame :: frames) s) : Coheres n frames s :=
  ⟨hco.heap, fun frame' hmem => hco.frames frame' (List.mem_cons_of_mem _ hmem), hco.homes⟩

/-- The heap may grow. -/
theorem Coheres.grow (hco : Coheres n frames s) (hgrown : h'.Coherent n.declarations ∧ s.heap.Retains h') :
    Coheres n frames { s with heap := h' } :=
  ⟨hgrown.1, fun frame hframe v hv => (hco.frames frame hframe v hv).retain hgrown.2,
    fun home hhome => (hco.homes home hhome).retain hco.heap hgrown.2⟩

/-- A function may be left. -/
theorem Coheres.leave (hco : Coheres n frames s) : Coheres n.leave frames s := by
  refine ⟨?_, hco.frames, fun home hhome => hco.homes home ?_⟩
  · unfold Nesting.leave
    split <;> exact hco.heap
  · unfold Nesting.leave at hhome
    split at hhome
    · exact hhome
    · rename_i caller others hcallers
      rw [hcallers]
      exact List.mem_cons_of_mem _ hhome

/-- A value that is there is delivered. -/
theorem Coheres.yield (hco : Coheres n frames s) (hv : v.IsThere s.heap) : Fitted n (Config.yield v frames s) :=
  ⟨hco, fun _ hw => hw ▸ hv⟩

/-- An error mentions nothing. -/
theorem Coheres.raise (hco : Coheres n frames s) (e : RuntimeError) : Fitted n (Config.raise e frames s) :=
  ⟨hco, fun _ hw => hw.elim⟩

/-- Code mentions nothing. -/
theorem Coheres.code (hco : Coheres n frames s) (hfocus : ∀ v, ¬focus.Mentions v) : Fitted n ⟨focus, frames, s⟩ :=
  ⟨hco, fun v hv => absurd hv (hfocus v)⟩

/-- What a name means is there. -/
theorem Coheres.isThere_of_lookup? (hco : Coheres n frames s) {scope : ScopeId} {name : String}
    (hv : s.heap.lookup? scope name = some v) : v.IsThere s.heap := by
  obtain ⟨t, ht⟩ := Heap.exists_own_of_lookup? hv
  exact hco.heap.values v (.bound ht)

namespace Config

/-! ## Calls -/

/-- Parameters are bound to values that are there. -/
theorem bindParameters_coherent (scope : ScopeId) : ∀ {names : List String} {vs : List Value} {h : Heap},
    h.Coherent r → (∀ v ∈ vs, v.IsThere h) →
    (bindParameters h scope names vs).Coherent r ∧ h.Retains (bindParameters h scope names vs)
  | [], _, _, hcoherent, _ => ⟨hcoherent, .refl _⟩
  | _ :: _, [], _, hcoherent, _ => ⟨hcoherent, .refl _⟩
  | name :: names, v :: vs, h, hcoherent, hvs => by
    obtain ⟨hdefined, hgrown⟩ := hcoherent.define (s := scope) name (hvs v List.mem_cons_self)
    obtain ⟨hbound, hgrown'⟩ := bindParameters_coherent scope hdefined
      fun w hw => (hvs w (List.mem_cons_of_mem _ hw)).retain hgrown
    exact ⟨hbound, hgrown.trans hgrown'⟩

/-- A function's code is entered in a grown heap. -/
theorem enter_fitted_of_grown {f : FunctionId} {receiver : Option InstanceId} {scope : ScopeId} {d : FunDecl}
    (hco : Coheres n frames s) (hgrown : h'.Coherent n.declarations ∧ s.heap.Retains h')
    (hhome : s.heap.Suits ((n.declarations.origin f).home receiver)) (hvs : ∀ v ∈ vs, v.IsThere s.heap) :
    Fitted (n.enter f receiver)
      ⟨.deliver (.value .nil), .statements d.body :: .leaveFunction s.scope :: frames,
        { s with heap := bindParameters h' scope d.parameters vs, scope }⟩ := by
  obtain ⟨hcoherent, hgrown'⟩ := bindParameters_coherent scope hgrown.1 fun v hv => (hvs v hv).retain hgrown.2
  have hall := hgrown.2.trans hgrown'
  have hpushed : Coheres n (.statements d.body :: .leaveFunction s.scope :: frames) s :=
    Coheres.push (hco.push fun _ hv => hv.elim) fun _ hv => hv.elim
  obtain ⟨-, hframes, hhomes⟩ := hpushed.grow ⟨hcoherent, hall⟩
  refine ⟨⟨hcoherent, hframes, fun home hmem => ?_⟩, fun _ hv => hv ▸ trivial⟩
  rcases List.mem_cons.1 hmem with rfl | hmem
  · exact hhome.retain hco.heap hall
  · exact hhomes home hmem

/-- A function is entered whose code runs on an instance of its class. -/
theorem enter_fitted {f : FunctionId} {receiver : Option InstanceId} (hco : Coheres n frames s)
    (hreceiver : ∀ o, receiver = some o → o.index < s.heap.instances.size)
    (hhome : s.heap.Suits ((n.declarations.origin f).home receiver)) (hvs : ∀ v ∈ vs, v.IsThere s.heap) :
    Fitted (n.enter f receiver) (enter f receiver vs frames s) := by
  obtain ⟨hnew, hgrown⟩ := hco.heap.newScope (some (s.heap.function f).scope)
  cases receiver with
  | none => exact enter_fitted_of_grown hco ⟨hnew, hgrown⟩ hhome hvs
  | some o =>
    have hthis : (Value.instanceObject o).IsThere s.heap := hreceiver o rfl
    obtain ⟨hdefined, hgrown'⟩ := hnew.define (s := ⟨s.heap.scopes.size⟩) thisName (hthis.retain hgrown)
    exact enter_fitted_of_grown hco ⟨hdefined, hgrown.trans hgrown'⟩ hhome hvs

/-- A method from the table of a class is entered on an instance of the class. -/
theorem enter_method_fitted {f : FunctionId} {k : ClassId} {o : InstanceId} {name : String} (hco : Coheres n frames s)
    (hsound : s.heap.Sound n.declarations) (ho : s.heap.IsInstance o k)
    (hf : (s.heap.classOf k).methods.find? name = some f) (hvs : ∀ v ∈ vs, v.IsThere s.heap) :
    Fitted (n.enter f (some o)) (enter f (some o) vs frames s) := by
  have horigin := ((hsound.classes k (Heap.index_lt_of_find? hf)).methods name f hf).origin
  refine enter_fitted hco (fun o' ho' => Option.some.inj ho' ▸ ho.there) (fun k' o' hko => ?_) hvs
  rw [horigin] at hko
  obtain ⟨rfl, rfl⟩ := Prod.mk.inj (Option.some.inj hko)
  exact ho

/-- A value is run. -/
theorem invoke_fitted {callee : Value} (hco : Coheres n frames s) (hsound : s.heap.Sound n.declarations)
    (hplain : callee.IsPlain n.declarations s.heap) (hcallee : callee.IsThere s.heap)
    (hvs : ∀ v ∈ vs, v.IsThere s.heap) : Fitted (n.invoked callee s) (invoke settings callee vs frames s) := by
  cases callee with
  -- A plain function has no receiver; what it closes over is told by its origin.
  | function f =>
    obtain ⟨hthere, home, horigin⟩ := hplain
    refine enter_fitted hco (fun _ ho => absurd ho (by simp)) ?_ hvs
    rw [horigin]
    exact hco.heap.origins f home hthere horigin
  | boundMethod b =>
    obtain ⟨k, name, ho, hmethod⟩ := hco.heap.boundMethods b hcallee
    exact enter_method_fitted hco hsound ho hmethod hvs
  -- A builtin makes nothing up: it answers an argument, an element of a sequence or no object at all.
  | builtin b =>
    have hanswer (time : Float) (a : Builtin.Answer) (hrun : b.run time vs s.heap = .ok a) (w : Value)
        (hw : a.Mentions w) : w.IsThere s.heap := by
      rcases Builtin.mentions_of_run hrun hw with hinert | hargument | ⟨id, helement⟩
      · exact hinert.isThere
      · exact hvs w hargument
      · exact hco.heap.values w (.element helement)
    simp only [invoke]
    split
    · rename_i w hrun
      exact Coheres.yield (hco.congr rfl) (hanswer _ _ hrun w rfl)
    · rename_i xs hrun
      exact (hco.grow (hco.heap.newSequence (hanswer _ _ hrun))).yield (s.heap.isThere_newSequence xs)
    · exact hco.raise _
  | classObject c =>
    have hgrown := hco.heap.newInstance hcallee
    have hgrown' := hsound.newInstance c
    have hsame : (s.heap.newInstance c).2.findMethod? c initializerName = s.heap.findMethod? c initializerName :=
      findMethod?_newInstance c
    have hthere := s.heap.isThere_newInstance c
    simp only [invoke, Nesting.invoked, Heap.entered?, hsame]
    cases hinit : s.heap.findMethod? c initializerName with
    | none => exact (hco.grow hgrown).yield hthere
    | some f =>
      -- The initializer is that of a class which the instance's own inherits from.
      obtain ⟨k, hinherits, hmethod⟩ := Heap.exists_inherits_of_findMethod? hinit
      have hconstruct : Coheres n (.construct ⟨s.heap.instances.size⟩ :: frames) { s with heap := _ } :=
        (hco.grow hgrown).push fun _ hw => hw ▸ hthere
      exact enter_method_fitted hconstruct hgrown'.1 (Heap.isInstance_newInstance hinherits) hmethod
        fun w hw => (hvs w hw).retain hgrown.2
  | _ => exact hco.raise _

/-- A value is called. -/
theorem apply_fitted {callee : Value} (hco : Coheres n frames s) (hsound : s.heap.Sound n.declarations)
    (hplain : callee.IsPlain n.declarations s.heap) (hcallee : callee.IsThere s.heap)
    (hvs : ∀ v ∈ vs, v.IsThere s.heap) :
    Fitted (n.applied settings callee vs s) (apply settings callee vs frames s) := by
  unfold apply Nesting.applied
  cases s.heap.callable? callee with
  | none => exact hco.raise _
  | some nameArity =>
    dsimp only
    split_ifs
    · exact hco.raise _
    · exact hco.raise _
    · have hcall : Coheres n (.leaveCall :: frames) { s with depth := s.depth + 1 } :=
        Coheres.push (hco.congr rfl) fun _ hw => hw.elim
      exact invoke_fitted hcall hsound hplain hcallee hvs

/-- Several expressions are gone on with. -/
theorem gather_fitted {purpose : Gathering} {todo : List Expr} (hco : Coheres n frames s)
    (hsound : s.heap.Sound n.declarations) (hplain : purpose.IsSound n.declarations s.heap)
    (hpurpose : ∀ v, purpose.Mentions v → v.IsThere s.heap) (hvs : ∀ v ∈ vs, v.IsThere s.heap) :
    Fitted (n.gathered settings purpose vs todo s) (gather settings purpose vs todo frames s) := by
  cases todo with
  | cons e rest => exact ⟨hco.push fun w hw => hw.elim (hpurpose w) (hvs w), fun _ hw => hw.elim⟩
  | nil =>
    have hdone : ∀ v ∈ vs.reverse, v.IsThere s.heap := fun v hv => hvs v (List.mem_reverse.1 hv)
    cases purpose with
    | elements =>
      exact (hco.grow (hco.heap.newSequence fun v hv => hdone v (List.mem_toArray.1 hv))).yield
        (s.heap.isThere_newSequence vs.reverse.toArray)
    | arguments callee => exact apply_fitted hco hsound hplain (hpurpose callee rfl) hdone

/-! ## Names, properties and classes -/

/-- A name is looked up. -/
theorem lookup_fitted {name : String} (hco : Coheres n frames s) : Fitted n (lookup name frames s) := by
  unfold lookup
  split
  · rename_i w hw
    exact hco.yield (hco.isThere_of_lookup? hw)
  · exact hco.raise _

/-- A method is bound to an instance that it fits. -/
theorem bindMethod_fitted {o : InstanceId} {f : FunctionId} (hco : Coheres n frames s) (hb : s.heap.Binds ⟨o, f⟩) :
    Fitted n (bindMethod o f frames s) := by
  exact (hco.grow (hco.heap.newBoundMethod hb)).yield (s.heap.isThere_newBoundMethod o f)

/-- A property of an instance is read. -/
theorem readProperty_fitted {o : InstanceId} {name : String} (hco : Coheres n frames s)
    (ho : o.index < s.heap.instances.size) : Fitted n (readProperty o name frames s) := by
  unfold readProperty
  cases hproperty : s.heap.property o name with
  | field w => exact hco.yield (hco.heap.values w (Heap.holds_of_property hproperty))
  | method f => exact bindMethod_fitted hco (Heap.binds_of_property ho hproperty)
  | missing => exact hco.raise _

/-- Code that sees a parent stands in a class with this parent, and `this` is an instance of the class. -/
theorem exists_home_of_superClass (hstands : Stands n frames s) {p : ClassId} {o : InstanceId}
    (hsuper : superClass s = .ok p) (hthis : thisInstance s = .ok o) :
    ∃ k, n.home = some (k, o) ∧ (s.heap.classOf k).parent = some p := by
  have hsees := hstands.sees
  unfold superClass at hsuper
  rw [hsees.super] at hsuper
  unfold thisInstance at hthis
  rw [hsees.this] at hthis
  cases hhome : n.home with
  | none =>
    rw [hhome] at hsuper
    exact nomatch hsuper
  | some home =>
    obtain ⟨k, o'⟩ := home
    rw [hhome] at hsuper hthis
    obtain rfl := Except.ok.inj hthis
    have hparent := (hstands.sound.classes k (hsees.known _ hhome)).parent
    simp only [Option.map_some, hparent] at hsuper
    cases hclass : (s.heap.classOf k).parent with
    | none =>
      rw [hclass] at hsuper
      exact nomatch hsuper
    | some q =>
      rw [hclass] at hsuper
      exact ⟨k, rfl, hclass.trans (congrArg some (Except.ok.inj hsuper))⟩

/-- A method of the parent is read. -/
theorem readSuper_fitted {name : String} (hstands : Stands n frames s) (hco : Coheres n frames s) :
    Fitted n (readSuper name frames s) := by
  unfold readSuper
  cases hsuper : superClass s with
  | error e => exact hco.raise _
  | ok p =>
    cases hthis : thisInstance s with
    | error e => exact hco.raise _
    | ok o =>
      dsimp only
      cases hmethod : s.heap.findMethod? p name with
      | none => exact hco.raise _
      | some f =>
        obtain ⟨k, hhome, hparent⟩ := exists_home_of_superClass hstands hsuper hthis
        have ho := hco.homes n.home List.mem_cons_self k o hhome
        exact bindMethod_fitted hco (ho.binds_of_findMethod? hparent hmethod)

/-- A class whose parent is there is declared. -/
theorem declareClass_fitted {name : String} (parent : Option ClassId) {ds : List FunDecl} (hco : Coheres n frames s)
    (hparent : ∀ p, parent = some p → p.index < s.heap.classes.size) :
    Fitted { n with declarations := n.declarations.withClass s.heap (parentValue parent) }
      (declareClass name parent ds frames s) := by
  have hthere := Heap.isThere_parentValue hparent
  -- The scope of the class, its methods and itself, and its name.
  obtain ⟨hnew, hgrown₁⟩ := hco.heap.newScope (some s.scope)
  obtain ⟨hscoped, hgrown₂⟩ := hnew.define (s := ⟨s.heap.scopes.size⟩) superName (hthere.retain hgrown₁)
  obtain ⟨hclass, hgrown₃⟩ := hscoped.addClass (Heap.methodClosures ⟨s.heap.scopes.size⟩ ds)
    ⟨name, parent, .ofList (declareMethods (s.heap.withSuper s.scope parent) ⟨s.heap.scopes.size⟩ ds).1⟩
    (parentValue parent) hparent
  obtain ⟨hnamed, hgrown₄⟩ := hclass.define (s := s.scope) name (Heap.isThere_addClass _ _ _)
  have hall := hgrown₁.trans (hgrown₂.trans (hgrown₃.trans hgrown₄))
  rw [declareClass_eq]
  exact ⟨⟨hnamed, fun frame hframe v hv => (hco.frames frame hframe v hv).retain hall,
    fun home hhome => (hco.homes home hhome).retain hco.heap hall⟩, fun _ hw => hw ▸ trivial⟩

/-! ## Expressions and statements -/

/-- The focus goes to code, and a frame that mentions nothing is left behind. -/
theorem push_fitted (hco : Coheres n frames s) (hframe : ∀ v, ¬frame.Mentions v) (hfocus : ∀ v, ¬focus.Mentions v) :
    Fitted n ⟨focus, frame :: frames, s⟩ :=
  (hco.push fun v hv => absurd hv (hframe v)).code hfocus

/-- The focus goes to code, and a frame that mentions what is there is left behind. -/
theorem keep_fitted (hco : Coheres n frames s) (hframe : ∀ w, frame.Mentions w → w.IsThere s.heap)
    (hfocus : ∀ v, ¬focus.Mentions v) : Fitted n ⟨focus, frame :: frames, s⟩ :=
  (hco.push hframe).code hfocus

/-- An expression is begun. -/
theorem evaluate_fitted {e : Expr} (hstands : Stands n frames s) (hco : Coheres n frames s) :
    Fitted n (evaluate settings e frames s) := by
  cases e with
  | literal l => exact hco.yield l.value_isInert.isThere
  | group inner => exact ⟨hco, fun _ hv => hv.elim⟩
  | unary op operand => exact push_fitted hco (fun _ hw => hw) fun _ hw => hw
  | binary left op right => exact push_fitted hco (fun _ hw => hw) fun _ hw => hw
  | logical left op right => exact push_fitted hco (fun _ hw => hw) fun _ hw => hw
  | ternary test ifTrue ifFalse => exact push_fitted hco (fun _ hw => hw) fun _ hw => hw
  | list items =>
    have hgather : Fitted (n.gathered settings .elements [] items s) (gather settings .elements [] items frames s) :=
      gather_fitted hco hstands.sound trivial (fun _ hw => hw.elim) fun _ hw => absurd hw List.not_mem_nil
    cases items <;> exact hgather
  | «variable» name => exact lookup_fitted hco
  | this => exact lookup_fitted hco
  | super method => exact readSuper_fitted hstands hco
  | assign target value => exact push_fitted hco (fun _ hw => hw) fun _ hw => hw
  | call callee arguments => exact push_fitted hco (fun _ hw => hw) fun _ hw => hw
  | get object property => exact push_fitted hco (fun _ hw => hw) fun _ hw => hw
  | set object property value => exact push_fitted hco (fun _ hw => hw) fun _ hw => hw
  | index object position => exact push_fitted hco (fun _ hw => hw) fun _ hw => hw
  | setIndex object position value => exact push_fitted hco (fun _ hw => hw) fun _ hw => hw

/-- A statement is begun. -/
theorem execute_fitted {st : Stmt} (hco : Coheres n frames s) : Fitted (n.executed st s) (execute st frames s) := by
  cases st with
  | varDecl name init =>
    cases init with
    | none => exact (hco.grow (hco.heap.define name (v := .nil) trivial)).yield trivial
    | some e => exact push_fitted hco (fun _ hw => hw) fun _ hw => hw
  | funDecl d =>
    -- The running code declares the function, so where the function stands is where this code stands.
    obtain ⟨hdeclared, hgrown⟩ := hco.heap.newFunction ⟨d, s.scope⟩ (hco.homes n.home List.mem_cons_self)
    obtain ⟨hnamed, hgrown'⟩ := hdeclared.define (s := s.scope) d.name (s.heap.isThere_newFunction ⟨d, s.scope⟩)
    have hall := hgrown.trans hgrown'
    exact ⟨⟨hnamed, fun frame hframe v hv => (hco.frames frame hframe v hv).retain hall,
      fun home hhome => (hco.homes home hhome).retain hco.heap hall⟩, fun _ hw => hw ▸ trivial⟩
  | classDecl name parent ds =>
    cases parent with
    | none => exact declareClass_fitted none hco fun _ hp => absurd hp (by simp)
    | some parent =>
      simp only [execute, Nesting.executed]
      cases hparent : s.heap.lookup? s.scope parent with
      | none => exact hco.raise _
      | some v =>
        cases v with
        | classObject c =>
          exact declareClass_fitted (some c) hco fun p hp => Option.some.inj hp ▸ hco.isThere_of_lookup? hparent
        | _ => exact hco.raise _
  | expression e => exact push_fitted hco (fun _ hw => hw) fun _ hw => hw
  | print e => exact push_fitted hco (fun _ hw => hw) fun _ hw => hw
  | block body =>
    have hpushed : Coheres n (.statements body :: .leaveBlock s.scope :: frames) s :=
      Coheres.push (hco.push fun _ hv => hv.elim) fun _ hv => hv.elim
    exact Coheres.yield ((hpushed.grow (hco.heap.newScope (some s.scope))).congr rfl) trivial
  | conditional test thenBranch elseBranch => exact push_fitted hco (fun _ hw => hw) fun _ hw => hw
  | loop test body => exact push_fitted hco (fun _ hw => hw) fun _ hw => hw
  | breakLoop => exact ⟨hco, fun _ hw => hw.elim⟩
  | returnValue value =>
    cases value with
    | none => exact ⟨hco, fun _ hw => hw ▸ trivial⟩
    | some e => exact push_fitted hco (fun _ hw => hw) fun _ hw => hw

/-! ## Frames -/

/-- A value that refers to no object, or an error, is handed on. -/
theorem settle_fitted {result : Except RuntimeError Value} (hco : Coheres n frames s)
    (hresult : ∀ v, result = .ok v → v.IsThere s.heap) : Fitted n (settle result frames s) := by
  cases result with
  | ok v => exact hco.yield (hresult v rfl)
  | error e => exact hco.raise e

/-- The innermost frame takes a value. -/
theorem resume_fitted (hstands : Stands n (frame :: frames) s) (hplain : v.IsPlain n.declarations s.heap)
    (hco' : Coheres n (frame :: frames) s) (hv : v.IsThere s.heap) :
    Fitted (n.resumed settings frame v s) (resume settings frame v frames s) := by
  have hco := hco'.pop
  have hframe := hco'.frames frame List.mem_cons_self
  cases frame with
  | choice ifTrue ifFalse => exact ⟨hco, fun _ hw => hw.elim⟩
  | leftOperand op right => exact keep_fitted hco (fun _ hw => hw ▸ hv) fun _ hw => hw
  -- The answer of an operator refers to no object.
  | rightOperand left op => exact settle_fitted hco fun _ hw => (Heap.isInert_of_binary hw).isThere
  | operand op => exact settle_fitted hco fun _ hw => (Value.isInert_of_unary hw).isThere
  | connective op right =>
    simp only [resume]
    split
    · exact hco.yield hv
    · exact ⟨hco, fun _ hw => hw.elim⟩
  | callee arguments =>
    exact gather_fitted hco hstands.sound hplain (fun _ hw => hw ▸ hv) fun _ hw => absurd hw List.not_mem_nil
  | gather purpose done todo =>
    have hframed := hstands.framed
    have hpurpose : purpose.IsSound n.declarations s.heap := by
      generalize n.home = home at hframed
      generalize n.callers = callers at hframed
      cases hframed with
      | other hsound _ => exact hsound.1
    refine gather_fitted hco hstands.sound hpurpose (fun w hw => hframe w (.inl hw)) fun w hw => ?_
    rcases List.mem_cons.1 hw with rfl | hw
    · exact hv
    · exact hframe w (.inr hw)
  | assign target =>
    simp only [resume]
    split
    · rename_i scope _ _
      have hgrown := hco.heap.define (s := scope) target hv
      exact (hco.grow hgrown).yield (hv.retain hgrown.2)
    · exact hco.raise _
  | propertyOwner property =>
    cases v with
    | instanceObject o => exact readProperty_fitted hco hv
    | _ => exact hco.raise _
  | fieldOwner property value =>
    cases v with
    | instanceObject o => exact keep_fitted hco (fun _ hw => hw ▸ hv) fun _ hw => hw
    | _ => exact hco.raise _
  | fieldValue o property =>
    have hgrown := hco.heap.setField o property hv
    exact (hco.grow hgrown).yield (hv.retain hgrown.2)
  | elementOwner position =>
    cases v with
    | sequence id => exact keep_fitted hco (fun _ hw => hw ▸ hv) fun _ hw => hw
    | _ => exact hco.raise _
  | elementPosition id =>
    refine settle_fitted hco fun w hw => ?_
    rcases Heap.isInert_or_mem_of_slot hw with hinert | helement
    · exact hinert.isThere
    · exact hco.heap.values w (.element helement)
  | updateOwner position value =>
    cases v with
    | sequence id => exact keep_fitted hco (fun _ hw => hw ▸ hv) fun _ hw => hw
    | _ => exact hco.raise _
  | updatePosition id value =>
    refine keep_fitted hco (fun w hw => ?_) fun _ hw => hw
    rcases hw with hid | hposition
    · exact hframe w hid
    · exact hposition ▸ hv
  | updateValue id position =>
    simp only [resume]
    split
    · rename_i slot _
      have hgrown := hco.heap.setElement id slot hv
      exact (hco.grow hgrown).yield (hv.retain hgrown.2)
    · exact hco.raise _
  | define name => exact (hco.grow (hco.heap.define name hv)).yield trivial
  | discard => exact hco.yield trivial
  | print =>
    simp only [resume, printLine]
    split
    · exact Coheres.yield (hco.congr rfl) trivial
    · exact hco.raise _
  | branch thenBranch elseBranch =>
    simp only [resume]
    split
    · exact ⟨hco, fun _ hw => hw.elim⟩
    · cases elseBranch with
      | none => exact hco.yield trivial
      | some other => exact ⟨hco, fun _ hw => hw.elim⟩
  | loopTest test body =>
    simp only [resume]
    split
    · exact push_fitted hco (fun _ hw => hw) fun _ hw => hw
    · exact hco.yield trivial
  | loopBody test body => exact push_fitted hco (fun _ hw => hw) fun _ hw => hw
  | returning => exact ⟨hco, fun _ hw => hw ▸ hv⟩
  | statements rest =>
    cases rest with
    | nil => exact hco.yield trivial
    | cons st rest => exact push_fitted hco (fun _ hw => hw) fun _ hw => hw
  | leaveBlock outer => exact Coheres.yield (hco.congr rfl) trivial
  -- The receiver of the function goes with its frame; the frames below hold on to their own.
  | leaveFunction outer => exact Coheres.yield (hco.leave.congr rfl) trivial
  -- The value of the initializer is dropped for the instance that waits in the frame.
  | construct o => exact hco.yield (hframe _ rfl)
  | leaveCall => exact Coheres.yield (hco.congr rfl) hv

/-- The innermost frame takes any other completion. -/
theorem unwind_fitted (completion : Completion) (hco' : Coheres n (frame :: frames) s)
    (hcompletion : ∀ v, completion.Mentions v → v.IsThere s.heap) :
    Fitted (n.unwound frame) (unwind frame completion frames s) := by
  have hco := hco'.pop
  cases frame with
  | loopBody test body =>
    cases completion with
    | broke => exact hco.yield trivial
    | _ => exact ⟨hco, hcompletion⟩
  | leaveBlock outer => exact ⟨hco.congr rfl, hcompletion⟩
  | leaveFunction outer =>
    cases completion with
    | returned v => exact Coheres.yield (hco.leave.congr rfl) (hcompletion v rfl)
    | broke => exact ⟨hco.leave.congr rfl, fun _ hw => hw.elim⟩
    | _ => exact ⟨hco.leave.congr rfl, hcompletion⟩
  | leaveCall => exact ⟨hco.congr rfl, hcompletion⟩
  | _ => exact ⟨hco, hcompletion⟩

end Config

/-! ## Steps -/

/-- A step of a fit configuration that agrees with its nesting is fit. -/
theorem Fitted.step (settings : Settings) (hpinned : Pinned n c) (hfitted : Fitted n c) :
    Fitted (n.after settings c) (c.step settings) := by
  obtain ⟨hstands, hsound⟩ := hpinned
  obtain ⟨hco, hfocus⟩ := hfitted
  obtain ⟨focus, frames, s⟩ := c
  cases focus with
  | evaluate e => exact Config.evaluate_fitted hstands hco
  | execute st => exact Config.execute_fitted hco
  | deliver completion =>
    cases frames with
    | nil => exact ⟨hco, hfocus⟩
    | cons frame frames =>
      cases completion with
      | value v => exact Config.resume_fitted hstands hsound hco (hfocus v rfl)
      | error e => exact Config.unwind_fitted (.error e) hco hfocus
      | returned v => exact Config.unwind_fitted (.returned v) hco hfocus
      | broke => exact Config.unwind_fitted .broke hco hfocus

end Lox
