import Lox.Proofs.Heap.Integrity
import Lox.Proofs.Machine.Receivers

/-!
# Every step keeps references from dangling

A configuration is intact (`Config.IsIntact`) if its heap is and whatever it mentions anywhere is there. Then so is the
next one (`step_isIntact`), whatever is run: nothing is asked of the names that programs bind. There is one lemma for
each part of a step.
-/

namespace Lox

variable {h h' : Heap} {s s' : State} {frames : List Frame} {frame : Frame} {focus : Focus} {v : Value}
  {vs : List Value} {c : Config} {settings : Settings}

/-- The heap is intact, and what the frames mention is there. -/
structure Sustains (frames : List Frame) (s : State) : Prop where
  heap : s.heap.IsIntact
  frames : ∀ frame ∈ frames, ∀ v, frame.Mentions v → v.IsThere s.heap

/-- Also what is in focus is there. -/
structure Config.IsIntact (c : Config) : Prop where
  sustains : Sustains c.frames c.state
  focus : ∀ v, c.focus.Mentions v → v.IsThere c.state.heap

/-- Everything that is mentioned is there. -/
theorem Config.IsIntact.isThere (hc : c.IsIntact) (hv : c.Mentions v) : v.IsThere c.state.heap := by
  cases hv with
  | focus hv => exact hc.focus v hv
  | frame hframe hv => exact hc.sustains.frames _ hframe v hv
  | heap hv => exact hc.sustains.heap.values v hv

namespace Sustains

/-- Nothing but the heap matters. -/
theorem congr (hs : Sustains frames s) (hheap : s'.heap = s.heap) : Sustains frames s' := by
  obtain ⟨hintact, hframes⟩ := hs
  exact ⟨by rwa [hheap], by rwa [hheap]⟩

/-- A frame can be added if what it mentions is there. -/
theorem push (hs : Sustains frames s) (hframe : ∀ v, frame.Mentions v → v.IsThere s.heap) :
    Sustains (frame :: frames) s :=
  ⟨hs.heap, List.forall_mem_cons.2 ⟨hframe, hs.frames⟩⟩

/-- A frame can be left out. -/
theorem pop (hs : Sustains (frame :: frames) s) : Sustains frames s :=
  ⟨hs.heap, (List.forall_mem_cons.1 hs.frames).2⟩

/-- The heap may grow. -/
theorem grow (hs : Sustains frames s) (hgrown : h'.IsIntact ∧ s.heap.Retains h') :
    Sustains frames { s with heap := h' } :=
  ⟨hgrown.1, fun frame hframe v hv => (hs.frames frame hframe v hv).retain hgrown.2⟩

/-- A value that is there is delivered. -/
theorem yield (hs : Sustains frames s) (hv : v.IsThere s.heap) : (Config.yield v frames s).IsIntact :=
  ⟨hs, fun _ hw => hw ▸ hv⟩

/-- An error mentions nothing. -/
theorem raise (hs : Sustains frames s) (e : RuntimeError) : (Config.raise e frames s).IsIntact :=
  ⟨hs, fun _ hw => hw.elim⟩

/-- The focus goes to something that mentions nothing. -/
theorem code (hs : Sustains frames s) (hfocus : ∀ v, ¬focus.Mentions v) : Config.IsIntact ⟨focus, frames, s⟩ :=
  ⟨hs, fun v hv => absurd hv (hfocus v)⟩

/-- The focus goes to code, and a frame is left behind that mentions nothing. -/
theorem leave (hs : Sustains frames s) (hframe : ∀ v, ¬frame.Mentions v) (hfocus : ∀ v, ¬focus.Mentions v) :
    Config.IsIntact ⟨focus, frame :: frames, s⟩ :=
  (hs.push fun v hv => absurd hv (hframe v)).code hfocus

/-- The focus goes to code, and a frame is left behind that mentions what is there. -/
theorem keep (hs : Sustains frames s) (hframe : ∀ v, frame.Mentions v → v.IsThere s.heap)
    (hfocus : ∀ v, ¬focus.Mentions v) : Config.IsIntact ⟨focus, frame :: frames, s⟩ :=
  (hs.push hframe).code hfocus

/-- A result is delivered that is there or an error. -/
theorem settle {result : Except RuntimeError Value} (hs : Sustains frames s)
    (hresult : ∀ v, result = .ok v → v.IsThere s.heap) : (Config.settle result frames s).IsIntact := by
  cases result with
  | ok v => exact hs.yield (hresult v rfl)
  | error e => exact hs.raise e

end Sustains

namespace Config

/-! ## Calls -/

/-- Parameters are bound to values that are there. -/
theorem bindParameters_isIntact (scope : ScopeId) : ∀ {names : List String} {vs : List Value} {h : Heap},
    h.IsIntact → (∀ v ∈ vs, v.IsThere h) →
    (bindParameters h scope names vs).IsIntact ∧ h.Retains (bindParameters h scope names vs)
  | [], _, _, hintact, _ => ⟨hintact, .refl _⟩
  | _ :: _, [], _, hintact, _ => ⟨hintact, .refl _⟩
  | name :: names, v :: vs, h, hintact, hvs => by
    obtain ⟨hdefined, hgrown⟩ := hintact.define scope name (hvs v List.mem_cons_self)
    obtain ⟨hbound, hgrown'⟩ := bindParameters_isIntact scope hdefined
      fun w hw => (hvs w (List.mem_cons_of_mem _ hw)).retain hgrown
    exact ⟨hbound, hgrown.trans hgrown'⟩

/-- The body of a function is run in a grown heap. -/
theorem enter_isIntact_of_grown {scope : ScopeId} {d : FunDecl} (hs : Sustains frames s)
    (hgrown : h'.IsIntact ∧ s.heap.Retains h') (hvs : ∀ v ∈ vs, v.IsThere s.heap) :
    IsIntact ⟨.deliver (.value .nil), .statements d.body :: .leaveFunction s.scope :: frames,
      { s with heap := bindParameters h' scope d.parameters vs, scope }⟩ := by
  obtain ⟨hintact, hgrown'⟩ := bindParameters_isIntact scope hgrown.1 fun v hv => (hvs v hv).retain hgrown.2
  have hpushed : Sustains (.statements d.body :: .leaveFunction s.scope :: frames) s :=
    Sustains.push (hs.push fun _ hv => hv.elim) fun _ hv => hv.elim
  exact Sustains.yield ((hpushed.grow ⟨hintact, hgrown.2.trans hgrown'⟩).congr rfl) trivial

/-- A function is entered on a receiver that is there, or on none. -/
theorem enter_isIntact {f : FunctionId} {receiver : Option InstanceId} (hs : Sustains frames s)
    (hreceiver : ∀ o, receiver = some o → o.index < s.heap.instances.size) (hvs : ∀ v ∈ vs, v.IsThere s.heap) :
    (enter f receiver vs frames s).IsIntact := by
  obtain ⟨hnew, hgrown⟩ := hs.heap.newScope (some (s.heap.function f).scope)
  cases receiver with
  | none => exact enter_isIntact_of_grown hs ⟨hnew, hgrown⟩ hvs
  | some o =>
    have hthis : (Value.instanceObject o).IsThere s.heap := hreceiver o rfl
    obtain ⟨hdefined, hgrown'⟩ := hnew.define ⟨s.heap.scopes.size⟩ thisName (hthis.retain hgrown)
    exact enter_isIntact_of_grown hs ⟨hdefined, hgrown.trans hgrown'⟩ hvs

/-- A value is run. -/
theorem invoke_isIntact {callee : Value} (hs : Sustains frames s) (hcallee : callee.IsThere s.heap)
    (hvs : ∀ v ∈ vs, v.IsThere s.heap) : (invoke settings callee vs frames s).IsIntact := by
  cases callee with
  | function f =>
    have hentered : (enter f none vs frames s).IsIntact := enter_isIntact hs (fun _ ho => nomatch ho) hvs
    exact hentered
  | boundMethod b =>
    have hreceiver := (hs.heap.boundMethods b hcallee).1
    exact enter_isIntact hs (fun o ho => Option.some.inj ho ▸ hreceiver) hvs
  | builtin b =>
    have hanswer (time : Float) (a : Builtin.Answer) (hrun : b.run time vs s.heap = .ok a) (w : Value)
        (hw : a.Mentions w) : w.IsThere s.heap := by
      rcases Builtin.mentions_of_run hrun hw with hinert | hargument | ⟨id, helement⟩
      · exact hinert.isThere
      · exact hvs w hargument
      · exact hs.heap.values w (.element helement)
    simp only [invoke]
    split
    · rename_i w hrun
      exact Sustains.yield (hs.congr rfl) (hanswer _ _ hrun w rfl)
    · rename_i xs hrun
      exact (hs.grow (hs.heap.newSequence (hanswer _ _ hrun))).yield (s.heap.isThere_newSequence xs)
    · exact hs.raise _
  | classObject c =>
    have hgrown := hs.heap.newInstance hcallee
    have hthere := s.heap.isThere_newInstance c
    simp only [invoke]
    split
    · have hconstruct : Sustains (.construct ⟨s.heap.instances.size⟩ :: frames) { s with heap := _ } :=
        (hs.grow hgrown).push fun _ hw => hw ▸ hthere
      exact enter_isIntact hconstruct (fun o ho => Option.some.inj ho ▸ hthere) fun w hw => (hvs w hw).retain hgrown.2
    · exact (hs.grow hgrown).yield hthere
  | _ => exact hs.raise _

/-- A value is called. -/
theorem apply_isIntact {callee : Value} (hs : Sustains frames s) (hcallee : callee.IsThere s.heap)
    (hvs : ∀ v ∈ vs, v.IsThere s.heap) : (apply settings callee vs frames s).IsIntact := by
  unfold apply
  split
  · exact hs.raise _
  · split_ifs
    · exact hs.raise _
    · exact hs.raise _
    · have hcall : Sustains (.leaveCall :: frames) { s with depth := s.depth + 1 } :=
        Sustains.push (hs.congr rfl) fun _ hw => hw.elim
      exact invoke_isIntact hcall hcallee hvs

/-- Several expressions are gone on with. -/
theorem gather_isIntact {purpose : Gathering} {todo : List Expr} (hs : Sustains frames s)
    (hpurpose : ∀ v, purpose.Mentions v → v.IsThere s.heap) (hvs : ∀ v ∈ vs, v.IsThere s.heap) :
    (gather settings purpose vs todo frames s).IsIntact := by
  cases todo with
  | cons e rest => exact hs.keep (fun w hw => hw.elim (hpurpose w) (hvs w)) fun _ hw => hw
  | nil =>
    have hdone : ∀ v ∈ vs.reverse, v.IsThere s.heap := fun v hv => hvs v (List.mem_reverse.1 hv)
    cases purpose with
    | elements =>
      exact (hs.grow (hs.heap.newSequence fun v hv => hdone v (List.mem_toArray.1 hv))).yield
        (s.heap.isThere_newSequence vs.reverse.toArray)
    | arguments callee => exact apply_isIntact hs (hpurpose callee rfl) hdone

/-! ## Names, properties and classes -/

/-- A name is looked up. -/
theorem lookup_isIntact {name : String} (hs : Sustains frames s) : (lookup name frames s).IsIntact := by
  unfold lookup
  split
  · rename_i w hw
    exact hs.yield (hs.heap.of_lookup? hw)
  · exact hs.raise _

/-- A method that is there is bound to an instance that is there. -/
theorem bindMethod_isIntact {o : InstanceId} {f : FunctionId} (hs : Sustains frames s)
    (ho : o.index < s.heap.instances.size) (hf : f.index < s.heap.functions.size) :
    (bindMethod o f frames s).IsIntact := by
  exact (hs.grow (hs.heap.newBoundMethod ho hf)).yield (s.heap.isThere_newBoundMethod o f)

/-- A property of an instance is read. -/
theorem readProperty_isIntact {o : InstanceId} {name : String} (hs : Sustains frames s)
    (ho : o.index < s.heap.instances.size) : (readProperty o name frames s).IsIntact := by
  unfold readProperty
  cases hproperty : s.heap.property o name with
  | field w => exact hs.yield (hs.heap.values w (Heap.holds_of_property hproperty))
  | method f => exact bindMethod_isIntact hs ho (hs.heap.of_property hproperty)
  | missing => exact hs.raise _

/-- The instance to which `this` refers is there. -/
theorem Sustains.of_thisInstance {o : InstanceId} (hs : Sustains frames s) (hthis : thisInstance s = .ok o) :
    o.index < s.heap.instances.size := by
  unfold thisInstance at hthis
  split at hthis
  · rename_i o' hlookup
    exact Except.ok.inj hthis ▸ hs.heap.of_lookup? hlookup
  · exact nomatch hthis
  · exact nomatch hthis

/-- A method of the parent is read. -/
theorem readSuper_isIntact {name : String} (hs : Sustains frames s) : (readSuper name frames s).IsIntact := by
  unfold readSuper
  split
  · exact hs.raise _
  · split
    · exact hs.raise _
    · rename_i o hthis
      split
      · rename_i f hf
        exact bindMethod_isIntact hs (Sustains.of_thisInstance hs hthis) (hs.heap.of_findMethod? hf)
      · exact hs.raise _

/-- A class whose parent is there is declared. -/
theorem declareClass_isIntact {name : String} (parent : Option ClassId) {ds : List FunDecl} (hs : Sustains frames s)
    (hparent : ∀ p, parent = some p → p.index < s.heap.classes.size) :
    (declareClass name parent ds frames s).IsIntact := by
  have hthere := Heap.isThere_parentValue hparent
  -- The scope of the class, its methods and itself, and its name.
  obtain ⟨hnew, hgrown₁⟩ := hs.heap.newScope (some s.scope)
  obtain ⟨hscoped, hgrown₂⟩ := hnew.define ⟨s.heap.scopes.size⟩ superName (hthere.retain hgrown₁)
  obtain ⟨hclass, hgrown₃⟩ := hscoped.addClass (Heap.methodClosures ⟨s.heap.scopes.size⟩ ds)
    ⟨name, parent, .ofList (declareMethods (s.heap.withSuper s.scope parent) ⟨s.heap.scopes.size⟩ ds).1⟩ hparent
    fun x f hf => by
      have hlength : (Heap.methodClosures ⟨s.heap.scopes.size⟩ ds).size = ds.length := by simp [Heap.methodClosures]
      rw [hlength]
      exact (Heap.index_of_mem_declareMethods (Bindings.mem_of_find?_ofList hf)).2
  obtain ⟨hnamed, hgrown₄⟩ := hclass.define s.scope name (Heap.isThere_addClass _ _ _)
  rw [declareClass_eq]
  exact (hs.grow ⟨hnamed, hgrown₁.trans (hgrown₂.trans (hgrown₃.trans hgrown₄))⟩).yield trivial

/-! ## Expressions and statements -/

/-- An expression is begun. -/
theorem evaluate_isIntact {e : Expr} (hs : Sustains frames s) : (evaluate settings e frames s).IsIntact := by
  cases e with
  | literal l => exact hs.yield l.value_isInert.isThere
  | group inner => exact hs.code fun _ hw => hw
  | list items =>
    have hgather : (gather settings .elements [] items frames s).IsIntact :=
      gather_isIntact hs (fun _ hw => hw.elim) fun _ hw => absurd hw List.not_mem_nil
    exact hgather
  | «variable» name => exact lookup_isIntact hs
  | this => exact lookup_isIntact hs
  | super method => exact readSuper_isIntact hs
  | _ => exact hs.leave (fun _ hw => hw) fun _ hw => hw

/-- A statement is begun. -/
theorem execute_isIntact {st : Stmt} (hs : Sustains frames s) : (execute st frames s).IsIntact := by
  cases st with
  | varDecl name init =>
    cases init with
    | none => exact (hs.grow (hs.heap.define (v := .nil) s.scope name trivial)).yield trivial
    | some e => exact hs.leave (fun _ hw => hw) fun _ hw => hw
  | funDecl d =>
    obtain ⟨hdeclared, hgrown⟩ := hs.heap.newFunction ⟨d, s.scope⟩
    obtain ⟨hnamed, hgrown'⟩ := hdeclared.define s.scope d.name (s.heap.isThere_newFunction ⟨d, s.scope⟩)
    exact (hs.grow ⟨hnamed, hgrown.trans hgrown'⟩).yield trivial
  | classDecl name parent ds =>
    cases parent with
    | none => exact declareClass_isIntact none hs nofun
    | some parent =>
      simp only [execute]
      split
      · rename_i c hparent
        exact declareClass_isIntact (some c) hs fun p hp => Option.some.inj hp ▸ hs.heap.of_lookup? hparent
      · exact hs.raise _
      · exact hs.raise _
  | block body =>
    have hpushed : Sustains (.statements body :: .leaveBlock s.scope :: frames) s :=
      Sustains.push (hs.push fun _ hv => hv.elim) fun _ hv => hv.elim
    exact Sustains.yield ((hpushed.grow (hs.heap.newScope (some s.scope))).congr rfl) trivial
  | breakLoop => exact hs.code fun _ hw => hw
  | returnValue value =>
    cases value with
    | none => exact ⟨hs, fun _ hw => hw ▸ trivial⟩
    | some e => exact hs.leave (fun _ hw => hw) fun _ hw => hw
  | _ => exact hs.leave (fun _ hw => hw) fun _ hw => hw

/-! ## Frames -/

/-- The innermost frame takes a value. -/
theorem resume_isIntact (hs' : Sustains (frame :: frames) s) (hv : v.IsThere s.heap) :
    (resume settings frame v frames s).IsIntact := by
  have hs := hs'.pop
  have hframe := hs'.frames frame List.mem_cons_self
  cases frame with
  | choice ifTrue ifFalse => exact hs.code fun _ hw => hw
  | leftOperand op right => exact hs.keep (fun _ hw => hw ▸ hv) fun _ hw => hw
  | rightOperand left op => exact hs.settle fun _ hw => (Heap.isInert_of_binary hw).isThere
  | operand op => exact hs.settle fun _ hw => (Value.isInert_of_unary hw).isThere
  | connective op right =>
    simp only [resume]
    split
    · exact hs.yield hv
    · exact hs.code fun _ hw => hw
  | callee arguments => exact gather_isIntact hs (fun _ hw => hw ▸ hv) fun _ hw => absurd hw List.not_mem_nil
  | gather purpose done todo =>
    exact gather_isIntact hs (fun w hw => hframe w (.inl hw))
      (List.forall_mem_cons.2 ⟨hv, fun w hw => hframe w (.inr hw)⟩)
  | assign target =>
    simp only [resume]
    split
    · rename_i scope _ _
      have hgrown := hs.heap.define scope target hv
      exact (hs.grow hgrown).yield (hv.retain hgrown.2)
    · exact hs.raise _
  | propertyOwner property =>
    cases v with
    | instanceObject o => exact readProperty_isIntact hs hv
    | _ => exact hs.raise _
  | fieldOwner property value =>
    cases v with
    | instanceObject o => exact hs.keep (fun _ hw => hw ▸ hv) fun _ hw => hw
    | _ => exact hs.raise _
  | fieldValue o property =>
    have hgrown := hs.heap.setField o property hv
    exact (hs.grow hgrown).yield (hv.retain hgrown.2)
  | elementOwner position =>
    cases v with
    | sequence id => exact hs.keep (fun _ hw => hw ▸ hv) fun _ hw => hw
    | _ => exact hs.raise _
  -- An element of a sequence is there, since the heap holds no other.
  | elementPosition id =>
    refine hs.settle fun w hw => ?_
    rcases Heap.isInert_or_mem_of_slot hw with hinert | helement
    · exact hinert.isThere
    · exact hs.heap.values w (.element helement)
  | updateOwner position value =>
    cases v with
    | sequence id => exact hs.keep (fun _ hw => hw ▸ hv) fun _ hw => hw
    | _ => exact hs.raise _
  | updatePosition id value =>
    refine hs.keep (fun w hw => ?_) fun _ hw => hw
    rcases hw with hid | hposition
    · exact hframe w hid
    · exact hposition ▸ hv
  | updateValue id position =>
    simp only [resume]
    split
    · rename_i slot _
      have hgrown := hs.heap.setElement id slot hv
      exact (hs.grow hgrown).yield (hv.retain hgrown.2)
    · exact hs.raise _
  | define name => exact (hs.grow (hs.heap.define s.scope name hv)).yield trivial
  | discard => exact hs.yield trivial
  | print =>
    simp only [resume, printLine]
    split
    · exact Sustains.yield (hs.congr rfl) trivial
    · exact hs.raise _
  | branch thenBranch elseBranch =>
    simp only [resume]
    split
    · exact hs.code fun _ hw => hw
    · cases elseBranch with
      | none => exact hs.yield trivial
      | some other => exact hs.code fun _ hw => hw
  | loopTest test body =>
    simp only [resume]
    split
    · exact hs.leave (fun _ hw => hw) fun _ hw => hw
    · exact hs.yield trivial
  | loopBody test body => exact hs.leave (fun _ hw => hw) fun _ hw => hw
  | returning => exact ⟨hs, fun _ hw => hw ▸ hv⟩
  | statements rest =>
    cases rest with
    | nil => exact hs.yield trivial
    | cons st rest => exact hs.leave (fun _ hw => hw) fun _ hw => hw
  | leaveBlock outer => exact Sustains.yield (hs.congr rfl) trivial
  | leaveFunction outer => exact Sustains.yield (hs.congr rfl) trivial
  -- The instance is there, since its frame mentions it.
  | construct o => exact hs.yield (hframe _ rfl)
  | leaveCall => exact Sustains.yield (hs.congr rfl) hv

/-- The innermost frame takes another completion. -/
theorem unwind_isIntact (completion : Completion) (hs' : Sustains (frame :: frames) s)
    (hcompletion : ∀ v, completion.Mentions v → v.IsThere s.heap) :
    (unwind frame completion frames s).IsIntact := by
  have hs := hs'.pop
  cases frame with
  | loopBody test body =>
    cases completion with
    | broke => exact hs.yield trivial
    | _ => exact ⟨hs, hcompletion⟩
  | leaveBlock outer => exact ⟨hs.congr rfl, hcompletion⟩
  | leaveFunction outer =>
    cases completion with
    | returned v => exact Sustains.yield (hs.congr rfl) (hcompletion v rfl)
    | broke => exact ⟨hs.congr rfl, fun _ hw => hw.elim⟩
    | _ => exact ⟨hs.congr rfl, hcompletion⟩
  | leaveCall => exact ⟨hs.congr rfl, hcompletion⟩
  | _ => exact ⟨hs, hcompletion⟩

/-! ## Steps -/

/-- A step of an intact configuration leads to an intact one. -/
theorem step_isIntact (settings : Settings) (hc : c.IsIntact) : (step settings c).IsIntact := by
  obtain ⟨focus, frames, s⟩ := c
  obtain ⟨hs, hfocus⟩ := hc
  cases focus with
  | evaluate e => exact evaluate_isIntact hs
  | execute st => exact execute_isIntact hs
  | deliver completion =>
    cases frames with
    | nil => exact ⟨hs, hfocus⟩
    | cons frame frames =>
      cases completion with
      | value v => exact resume_isIntact hs (hfocus v rfl)
      | error e => exact unwind_isIntact (.error e) hs hfocus
      | returned v => exact unwind_isIntact (.returned v) hs hfocus
      | broke => exact unwind_isIntact .broke hs hfocus

end Config

end Lox
