import Lox.Proofs.Heap.Agreement
import Lox.Proofs.Machine.Sequence

/-!
# Runs that do not depend on some names

Two configurations agree on the names with a property if their heaps do, if they are the same otherwise, and if their
code mentions no other names (`Agree`). Both then make the same steps (`Agree.step`), so that they end with the same
completions, print the same and never touch what the other names are bound to. The names under which methods find their
instance and the parent of their class have to be among those on which they agree.
-/

namespace Lox

/-- A state with other scopes. -/
def State.withScopes (s : State) (scopes : Array Scope) : State :=
  { s with heap := s.heap.withScopes scopes }

namespace Config

/-- A configuration with other scopes. -/
def withScopes (c : Config) (scopes : Array Scope) : Config :=
  { c with state := c.state.withScopes scopes }

variable {settings : Settings} {p : String → Prop} {others others' : ScopeId → String → Option Value} {frame : Frame}
  {frames : List Frame} {s : State} {scopes : Array Scope} {heap : Heap} {c d : Config}

/-- Two configurations agree on the names with a property: they are the same but for what scopes bind other names to,
and no code mentions those. -/
structure Agree (p : String → Prop) (others others' : ScopeId → String → Option Value) (c d : Config) : Prop where
  heap : c.state.heap.Agree p others others' d.state.heap
  focus : c.focus.MentionsOnly p
  frames : ∀ frame ∈ c.frames, frame.MentionsOnly p
  same : d = c.withScopes d.state.heap.scopes

/-- Heaps that agree make configurations that agree. -/
theorem agree_of_heap (ha : c.state.heap.Agree p others others' heap) (hfocus : c.focus.MentionsOnly p)
    (hframes : ∀ frame ∈ c.frames, frame.MentionsOnly p) :
    c.Agree p others others' ⟨c.focus, c.frames, { c.state with heap }⟩ :=
  ⟨ha, hfocus, hframes, by rw [withScopes, State.withScopes, ← ha.objects]⟩

/-- Where scopes and functions stay, only the code matters. -/
theorem agree_keep (ha : s.heap.Agree p others others' (s.heap.withScopes scopes))
    (hkeep : c.state.heap.scopes = s.heap.scopes ∧ c.state.heap.functions = s.heap.functions)
    (hfocus : c.focus.MentionsOnly p) (hframes : ∀ frame ∈ c.frames, frame.MentionsOnly p) :
    c.Agree p others others' (c.withScopes scopes) :=
  agree_of_heap (ha.of_scopes hkeep.1 rfl rfl (hkeep.2 ▸ ha.code)) hfocus hframes

/-- One more frame is kept. -/
theorem mentionsOnly_push (hframe : frame.MentionsOnly p) (hf : ∀ frame ∈ frames, frame.MentionsOnly p) :
    ∀ other ∈ frame :: frames, other.MentionsOnly p :=
  List.forall_mem_cons.2 ⟨hframe, hf⟩

section

variable (ha : s.heap.Agree p others others' (s.heap.withScopes scopes)) (hf : ∀ frame ∈ frames, frame.MentionsOnly p)

include ha

/-- A scope that is added has the same identity. -/
theorem newScope_withScopes (parent : Option ScopeId) :
    (s.withScopes scopes).heap.newScope parent =
      (⟨s.heap.scopes.size⟩, ((s.heap.withScopes scopes).newScope parent).2) :=
  Prod.ext (congrArg ScopeId.mk ha.size) rfl

include hf

/-! ## Calls -/

/-- A function is entered. -/
theorem enter_agree (hthis : p thisName) (f : FunctionId) (receiver : Option InstanceId) (arguments : List Value) :
    Agree p others others' (enter f receiver arguments frames s)
      (enter f receiver arguments frames (s.withScopes scopes)) := by
  have hcode := ha.function f
  have hframes : ∀ frame ∈ .statements (s.heap.function f).declaration.body :: .leaveFunction s.scope :: frames,
      frame.MentionsOnly p :=
    mentionsOnly_push hcode.body (mentionsOnly_push trivial hf)
  have hopen := ha.newScope (some (s.heap.function f).scope)
  -- The scope of the function has the same identity on both sides, since there are as many scopes.
  rw [enter, enter, newScope_withScopes ha]
  cases receiver with
  | none => exact agree_of_heap (hopen.bindParameters hcode.parameters) trivial hframes
  | some o =>
    have hbound := hopen.define hthis ⟨s.heap.scopes.size⟩ (.instanceObject o)
    exact agree_of_heap (hbound.bindParameters hcode.parameters) trivial hframes

/-- What can be called is run. -/
theorem invoke_agree (hthis : p thisName) (callee : Value) (arguments : List Value) :
    Agree p others others' (invoke settings callee arguments frames s)
      (invoke settings callee arguments frames (s.withScopes scopes)) := by
  cases callee with
  | function f => exact enter_agree ha hf hthis f none arguments
  | boundMethod b =>
    exact enter_agree ha hf hthis (s.heap.boundMethod b).method (some (s.heap.boundMethod b).receiver) arguments
  | builtin b =>
    simp only [invoke, State.withScopes, Heap.run_withScopes]
    split <;> exact agree_keep ha ⟨rfl, rfl⟩ trivial hf
  | classObject c =>
    have hmethod : ((s.heap.withScopes scopes).newInstance c).2.findMethod? c initializerName =
        (s.heap.newInstance c).2.findMethod? c initializerName :=
      Heap.findMethod?_withScopes (h := (s.heap.newInstance c).2) c
    simp only [invoke, State.withScopes]
    rw [hmethod]
    cases (s.heap.newInstance c).2.findMethod? c initializerName with
    | none => exact agree_keep ha ⟨rfl, rfl⟩ trivial hf
    | some f =>
      have hinstance : (s.heap.newInstance c).2.Agree p others others' ((s.heap.newInstance c).2.withScopes scopes) :=
        ha.of_scopes rfl rfl rfl ha.code
      have hconstruct : ∀ frame ∈ .construct ⟨s.heap.instances.size⟩ :: frames, frame.MentionsOnly p :=
        mentionsOnly_push trivial hf
      exact enter_agree (s := { s with heap := (s.heap.newInstance c).2 }) hinstance hconstruct hthis f _ arguments
  | _ =>
    simp only [invoke, State.withScopes, Heap.text_withScopes]
    exact agree_keep ha ⟨rfl, rfl⟩ trivial hf

/-- A value is called. -/
theorem apply_agree (hthis : p thisName) (callee : Value) (arguments : List Value) :
    Agree p others others' (apply settings callee arguments frames s)
      (apply settings callee arguments frames (s.withScopes scopes)) := by
  have hcallable : (s.withScopes scopes).heap.callable? callee = s.heap.callable? callee :=
    Heap.callable?_withScopes callee
  have htext : (s.withScopes scopes).heap.text callee = s.heap.text callee := Heap.text_withScopes callee
  have hdepth : (s.withScopes scopes).depth = s.depth := rfl
  simp only [apply, hcallable, htext, hdepth]
  cases s.heap.callable? callee with
  | none => exact agree_keep ha ⟨rfl, rfl⟩ trivial hf
  | some signature =>
    dsimp only
    split_ifs
    · exact agree_keep ha ⟨rfl, rfl⟩ trivial hf
    · exact agree_keep ha ⟨rfl, rfl⟩ trivial hf
    · have hcall : ∀ frame ∈ .leaveCall :: frames, frame.MentionsOnly p := mentionsOnly_push trivial hf
      exact invoke_agree (s := { s with depth := s.depth + 1 }) ha hcall hthis callee arguments

/-- Several expressions are gone on with. -/
theorem gather_agree (settings : Settings) (hthis : p thisName) (purpose : Gathering) (done : List Value)
    {todo : List Expr} (htodo : Expr.AllMentionOnly p todo) :
    Agree p others others' (gather settings purpose done todo frames s)
      (gather settings purpose done todo frames (s.withScopes scopes)) := by
  cases todo with
  | cons e rest => exact agree_keep ha ⟨rfl, rfl⟩ htodo.1 (mentionsOnly_push htodo.2 hf)
  | nil =>
    cases purpose with
    | elements => exact agree_keep ha ⟨rfl, rfl⟩ trivial hf
    | arguments callee => exact apply_agree ha hf hthis callee done.reverse

/-! ## Names, properties and classes -/

/-- A name with the property is looked up. -/
theorem lookup_agree {name : String} (hname : p name) :
    Agree p others others' (lookup name frames s) (lookup name frames (s.withScopes scopes)) := by
  have hlookup : (s.withScopes scopes).heap.lookup? (s.withScopes scopes).scope name = s.heap.lookup? s.scope name :=
    ha.lookup? hname s.scope
  rw [lookup, lookup, hlookup]
  cases s.heap.lookup? s.scope name <;> exact agree_keep ha ⟨rfl, rfl⟩ trivial hf

/-- A property is read. -/
theorem readProperty_agree (o : InstanceId) (name : String) :
    Agree p others others' (readProperty o name frames s) (readProperty o name frames (s.withScopes scopes)) := by
  have hproperty : (s.withScopes scopes).heap.property o name = s.heap.property o name := Heap.property_withScopes o
  rw [readProperty, readProperty, hproperty]
  cases s.heap.property o name <;> exact agree_keep ha ⟨rfl, rfl⟩ trivial hf

/-- A method of the parent is read. -/
theorem readSuper_agree (hthis : p thisName) (hsuper : p superName) (name : String) :
    Agree p others others' (readSuper name frames s) (readSuper name frames (s.withScopes scopes)) := by
  have hlookup {name : String} (hname : p name) :
      (s.withScopes scopes).heap.lookup? (s.withScopes scopes).scope name = s.heap.lookup? s.scope name :=
    ha.lookup? hname s.scope
  have hclass : superClass (s.withScopes scopes) = superClass s := by
    rw [superClass, superClass, hlookup hsuper]
  have hinstance : thisInstance (s.withScopes scopes) = thisInstance s := by
    rw [thisInstance, thisInstance, hlookup hthis]
  have hmethod (c : ClassId) : (s.withScopes scopes).heap.findMethod? c name = s.heap.findMethod? c name :=
    Heap.findMethod?_withScopes c
  rw [readSuper, readSuper, hclass, hinstance]
  cases superClass s with
  | error e => exact agree_keep ha ⟨rfl, rfl⟩ trivial hf
  | ok c =>
    cases thisInstance s with
    | error e => exact agree_keep ha ⟨rfl, rfl⟩ trivial hf
    | ok o =>
      dsimp only
      rw [hmethod]
      cases s.heap.findMethod? c name <;> exact agree_keep ha ⟨rfl, rfl⟩ trivial hf

/-- A class is declared whose name has the property, and whose methods mention only such names. -/
theorem declareClass_agree (hsuper : p superName) {name : String} (hname : p name) (parent : Option ClassId)
    {ds : List FunDecl} (hds : FunDecl.AllMentionOnly p ds) :
    Agree p others others' (declareClass name parent ds frames s)
      (declareClass name parent ds frames (s.withScopes scopes)) := by
  have hsize : scopes.size = s.heap.scopes.size := ha.size
  -- Which functions become the methods depends on how many functions there are, and not on scopes.
  have htable : (declareMethods ((s.heap.withScopes scopes).withSuper s.scope parent) ⟨scopes.size⟩ ds).1 =
      (declareMethods (s.heap.withSuper s.scope parent) ⟨s.heap.scopes.size⟩ ds).1 :=
    Heap.declareMethods_fst_congr ds rfl
  have hright : declaredHeap name parent ds (s.withScopes scopes) =
      (((s.heap.withScopes scopes).withSuper s.scope parent).addClass (Heap.methodClosures ⟨s.heap.scopes.size⟩ ds)
        ⟨name, parent, .ofList (declareMethods (s.heap.withSuper s.scope parent) ⟨s.heap.scopes.size⟩ ds).1⟩).define
          s.scope name (.classObject ⟨s.heap.classes.size⟩) := by
    rw [← htable, ← hsize]
    rfl
  have hclass := (ha.withSuper hsuper s.scope parent).addClass (s := ⟨s.heap.scopes.size⟩) hds
    ⟨name, parent, .ofList (declareMethods (s.heap.withSuper s.scope parent) ⟨s.heap.scopes.size⟩ ds).1⟩
  rw [declareClass_eq, declareClass_eq, hright]
  exact agree_of_heap (hclass.define hname s.scope _) trivial hf

/-! ## Expressions and statements -/

/-- An expression is begun. -/
theorem evaluate_agree (hthis : p thisName) (hsuper : p superName) {e : Expr} (he : e.MentionsOnly p) :
    Agree p others others' (evaluate settings e frames s) (evaluate settings e frames (s.withScopes scopes)) := by
  cases e with
  | literal l => exact agree_keep ha ⟨rfl, rfl⟩ trivial hf
  | group inner => exact agree_keep ha ⟨rfl, rfl⟩ he hf
  | unary op operand => exact agree_keep ha ⟨rfl, rfl⟩ he (mentionsOnly_push trivial hf)
  | binary left op right => exact agree_keep ha ⟨rfl, rfl⟩ he.1 (mentionsOnly_push he.2 hf)
  | logical left op right => exact agree_keep ha ⟨rfl, rfl⟩ he.1 (mentionsOnly_push he.2 hf)
  | ternary test ifTrue ifFalse => exact agree_keep ha ⟨rfl, rfl⟩ he.1 (mentionsOnly_push he.2 hf)
  | list items => exact gather_agree ha hf settings hthis .elements [] he
  | «variable» name => exact lookup_agree ha hf he
  | this => exact lookup_agree ha hf hthis
  | super method => exact readSuper_agree ha hf hthis hsuper method
  | assign target value => exact agree_keep ha ⟨rfl, rfl⟩ he.2 (mentionsOnly_push he.1 hf)
  | call callee arguments => exact agree_keep ha ⟨rfl, rfl⟩ he.1 (mentionsOnly_push he.2 hf)
  | get object property => exact agree_keep ha ⟨rfl, rfl⟩ he (mentionsOnly_push trivial hf)
  | set object property value => exact agree_keep ha ⟨rfl, rfl⟩ he.1 (mentionsOnly_push he.2 hf)
  | index object position => exact agree_keep ha ⟨rfl, rfl⟩ he.1 (mentionsOnly_push he.2 hf)
  | setIndex object position value => exact agree_keep ha ⟨rfl, rfl⟩ he.1 (mentionsOnly_push he.2 hf)

/-- A statement is begun. -/
theorem execute_agree (hsuper : p superName) {st : Stmt} (hst : st.MentionsOnly p) :
    Agree p others others' (execute st frames s) (execute st frames (s.withScopes scopes)) := by
  cases st with
  | varDecl name init =>
    cases init with
    | none => exact agree_of_heap (ha.define hst.1 s.scope .nil) trivial hf
    | some init => exact agree_keep ha ⟨rfl, rfl⟩ hst.2 (mentionsOnly_push hst.1 hf)
  | funDecl d =>
    have hfunction := (ha.newFunction (f := ⟨d, s.scope⟩) hst.2).define hst.1 s.scope
      (.function ⟨s.heap.functions.size⟩)
    exact agree_of_heap hfunction trivial hf
  | classDecl name parent ds =>
    obtain ⟨hname, hparent, hds⟩ := hst
    cases parent with
    | none => exact declareClass_agree ha hf hsuper hname none hds
    | some parent =>
      have hlookup : (s.withScopes scopes).heap.lookup? (s.withScopes scopes).scope parent =
          s.heap.lookup? s.scope parent := ha.lookup? (hparent parent rfl) s.scope
      rw [execute, execute, hlookup]
      cases s.heap.lookup? s.scope parent with
      | none => exact agree_keep ha ⟨rfl, rfl⟩ trivial hf
      | some v =>
        cases v with
        | classObject c => exact declareClass_agree ha hf hsuper hname (some c) hds
        | _ => exact agree_keep ha ⟨rfl, rfl⟩ trivial hf
  | expression e => exact agree_keep ha ⟨rfl, rfl⟩ hst (mentionsOnly_push trivial hf)
  | print e => exact agree_keep ha ⟨rfl, rfl⟩ hst (mentionsOnly_push trivial hf)
  | block body =>
    rw [execute, execute, newScope_withScopes ha]
    exact agree_of_heap (ha.newScope (some s.scope)) trivial (mentionsOnly_push hst (mentionsOnly_push trivial hf))
  | conditional test thenBranch elseBranch =>
    cases elseBranch with
    | none =>
      have hframe : (Frame.branch thenBranch none).MentionsOnly p := by
        refine ⟨hst.2, fun other hother => ?_⟩
        cases hother
      exact agree_keep ha ⟨rfl, rfl⟩ hst.1 (mentionsOnly_push hframe hf)
    | some other =>
      have hframe : (Frame.branch thenBranch (some other)).MentionsOnly p :=
        ⟨hst.2.1, fun _ hother => Option.some.inj hother ▸ hst.2.2⟩
      exact agree_keep ha ⟨rfl, rfl⟩ hst.1 (mentionsOnly_push hframe hf)
  | loop test body => exact agree_keep ha ⟨rfl, rfl⟩ hst.1 (mentionsOnly_push hst hf)
  | breakLoop => exact agree_keep ha ⟨rfl, rfl⟩ trivial hf
  | returnValue value =>
    cases value with
    | none => exact agree_keep ha ⟨rfl, rfl⟩ trivial hf
    | some e => exact agree_keep ha ⟨rfl, rfl⟩ hst (mentionsOnly_push trivial hf)

/-- A value is handed on. -/
theorem resume_agree (hthis : p thisName) (v : Value) (hframe : frame.MentionsOnly p) :
    Agree p others others' (resume settings frame v frames s)
      (resume settings frame v frames (s.withScopes scopes)) := by
  cases frame with
  | choice ifTrue ifFalse =>
    have hchosen : (if v.isTruthy then ifTrue else ifFalse).MentionsOnly p := by
      split_ifs
      · exact hframe.1
      · exact hframe.2
    exact agree_keep ha ⟨rfl, rfl⟩ hchosen hf
  | leftOperand op right => exact agree_keep ha ⟨rfl, rfl⟩ hframe (mentionsOnly_push trivial hf)
  | rightOperand left op =>
    simp only [resume, State.withScopes, Heap.binary_withScopes]
    exact agree_keep ha ⟨rfl, rfl⟩ trivial hf
  | operand op => exact agree_keep ha ⟨rfl, rfl⟩ trivial hf
  | connective op right =>
    simp only [resume]
    split_ifs
    · exact agree_keep ha ⟨rfl, rfl⟩ trivial hf
    · exact agree_keep ha ⟨rfl, rfl⟩ hframe hf
  | callee arguments => exact gather_agree ha hf settings hthis (.arguments v) [] hframe
  | gather purpose done todo => exact gather_agree ha hf settings hthis purpose (v :: done) hframe
  | assign target =>
    -- Both sides bind the name in the same scope, or in none.
    have hlocate : (s.withScopes scopes).heap.locate? (s.withScopes scopes).scope target =
        s.heap.locate? s.scope target := ha.locate? hframe s.scope
    simp only [resume, hlocate]
    cases s.heap.locate? s.scope target with
    | none => exact agree_keep ha ⟨rfl, rfl⟩ trivial hf
    | some found => exact agree_of_heap (ha.define hframe found.1 v) trivial hf
  | propertyOwner property =>
    cases v with
    | instanceObject o => exact readProperty_agree ha hf o property
    | _ => exact agree_keep ha ⟨rfl, rfl⟩ trivial hf
  | fieldOwner property value =>
    cases v with
    | instanceObject o => exact agree_keep ha ⟨rfl, rfl⟩ hframe (mentionsOnly_push trivial hf)
    | _ => exact agree_keep ha ⟨rfl, rfl⟩ trivial hf
  | elementOwner position =>
    cases v with
    | sequence id => exact agree_keep ha ⟨rfl, rfl⟩ hframe (mentionsOnly_push trivial hf)
    | _ => exact agree_keep ha ⟨rfl, rfl⟩ trivial hf
  | elementPosition id =>
    have hsequence : (s.heap.withScopes scopes).sequence id = s.heap.sequence id := rfl
    simp only [resume, State.withScopes, Heap.slot_withScopes, hsequence]
    exact agree_keep ha ⟨rfl, rfl⟩ trivial hf
  | updateOwner position value =>
    cases v with
    | sequence id => exact agree_keep ha ⟨rfl, rfl⟩ hframe.1 (mentionsOnly_push hframe.2 hf)
    | _ => exact agree_keep ha ⟨rfl, rfl⟩ trivial hf
  | updatePosition id value => exact agree_keep ha ⟨rfl, rfl⟩ hframe (mentionsOnly_push trivial hf)
  | updateValue id position =>
    have hslot : (s.withScopes scopes).heap.slot id position = s.heap.slot id position :=
      Heap.slot_withScopes id position
    simp only [resume, hslot]
    cases s.heap.slot id position <;> exact agree_keep ha ⟨rfl, rfl⟩ trivial hf
  | define name => exact agree_of_heap (ha.define hframe s.scope v) trivial hf
  -- The text of a value does not look at scopes, so both print the same line, or are refused alike.
  | print =>
    simp only [resume, printLine, State.withScopes, Heap.text_withScopes]
    split <;> exact agree_keep ha ⟨rfl, rfl⟩ trivial hf
  | branch thenBranch elseBranch =>
    simp only [resume]
    split_ifs
    · exact agree_keep ha ⟨rfl, rfl⟩ hframe.1 hf
    · cases elseBranch with
      | none => exact agree_keep ha ⟨rfl, rfl⟩ trivial hf
      | some other => exact agree_keep ha ⟨rfl, rfl⟩ (hframe.2 other rfl) hf
  | loopTest test body =>
    simp only [resume]
    split_ifs
    · exact agree_keep ha ⟨rfl, rfl⟩ hframe.2 (mentionsOnly_push hframe hf)
    · exact agree_keep ha ⟨rfl, rfl⟩ trivial hf
  | loopBody test body => exact agree_keep ha ⟨rfl, rfl⟩ hframe.1 (mentionsOnly_push hframe hf)
  | statements rest =>
    cases rest with
    | nil => exact agree_keep ha ⟨rfl, rfl⟩ trivial hf
    | cons st rest => exact agree_keep ha ⟨rfl, rfl⟩ hframe.1 (mentionsOnly_push hframe.2 hf)
  | _ => exact agree_keep ha ⟨rfl, rfl⟩ trivial hf

/-- Another completion is handed on. -/
theorem unwind_agree (frame : Frame) (completion : Completion) :
    Agree p others others' (unwind frame completion frames s)
      (unwind frame completion frames (s.withScopes scopes)) := by
  cases frame with
  | loopBody test body => cases completion <;> exact agree_keep ha ⟨rfl, rfl⟩ trivial hf
  | leaveFunction outer => cases completion <;> exact agree_keep ha ⟨rfl, rfl⟩ trivial hf
  | _ => exact agree_keep ha ⟨rfl, rfl⟩ trivial hf

end

/-! ## Steps and runs -/

/-- Everything but scopes is the same. -/
theorem Agree.exists_scopes (ha : c.Agree p others others' d) : ∃ scopes, d = c.withScopes scopes :=
  ⟨d.state.heap.scopes, ha.same⟩

/-- Configurations that agree make steps to such configurations. -/
theorem Agree.step (hthis : p thisName) (hsuper : p superName) (settings : Settings) (ha : c.Agree p others others' d) :
    (step settings c).Agree p others others' (step settings d) := by
  obtain ⟨scopes, rfl⟩ := ha.exists_scopes
  obtain ⟨focus, frames, s⟩ := c
  obtain ⟨hheap, hfocus, hframes, -⟩ := ha
  cases focus with
  | evaluate e => exact evaluate_agree hheap hframes hthis hsuper hfocus
  | execute st => exact execute_agree hheap hframes hsuper hfocus
  | deliver completion =>
    cases frames with
    | nil => exact agree_keep hheap ⟨rfl, rfl⟩ trivial hframes
    | cons frame frames =>
      obtain ⟨hframe, hrest⟩ := List.forall_mem_cons.1 hframes
      cases completion with
      | value v => exact resume_agree hheap hrest hthis v hframe
      | error e => exact unwind_agree hheap hrest frame (.error e)
      | returned v => exact unwind_agree hheap hrest frame (.returned v)
      | broke => exact unwind_agree hheap hrest frame .broke

/-- Nothing is left to do in the one configuration if nothing is left to do in the other. -/
theorem Agree.isFinal_iff (ha : c.Agree p others others' d) : d.IsFinal ↔ c.IsFinal := by
  obtain ⟨scopes, rfl⟩ := ha.exists_scopes
  obtain ⟨focus, frames, s⟩ := c
  constructor
  · rintro ⟨completion, s', hc⟩
    obtain ⟨rfl, rfl, -⟩ := Config.mk.inj hc
    exact ⟨completion, s, rfl⟩
  · rintro ⟨completion, s', hc⟩
    obtain ⟨rfl, rfl, -⟩ := Config.mk.inj hc
    exact ⟨completion, s.withScopes scopes, rfl⟩

/-- Configurations that agree make runs to such configurations, as long as each other. -/
theorem Agree.advance (hthis : p thisName) (hsuper : p superName) (settings : Settings) (n : Nat)
    (ha : c.Agree p others others' d) : (c.advance settings n).Agree p others others' (d.advance settings n) := by
  induction n generalizing c d with
  | zero => exact ha
  | succ n ih =>
    by_cases hfinal : c.IsFinal
    · obtain ⟨completion', s', hd⟩ := ha.isFinal_iff.2 hfinal
      obtain ⟨completion, s, hc⟩ := hfinal
      subst hc hd
      rw [advance_final, advance_final]
      exact ha
    · rw [advance_succ hfinal, advance_succ fun hd => hfinal (ha.isFinal_iff.1 hd)]
      exact ih (ha.step hthis hsuper settings)

end Config

end Lox
