import Mathlib.Data.List.Forall2
import Lox.Proofs.Interpreter.Super
import Lox.Proofs.Machine.Receivers

/-!
# Bound methods fit their receivers

However a bound method came about, its method is in the table of a class in the ancestry of its receiver's class; and
wherever the code of a method runs, `this` is an instance whose class has the class of the method in its ancestry
(`boundMethods_fit`). What edits and the data of a host add to a session leaves it so.
-/

namespace Lox

variable {i j : Interpreter} {c c' : Config} {n n' : Nesting} {r : Declarations} {h h' : Heap} {frames : List Frame}
  {settings : Settings}

/-! ## Data -/

namespace Heap

/-- New sequences of values that are there keep a heap coherent. -/
def Upkeep.coherent (r : Declarations) : Upkeep where
  heap := Coherent r
  grows := Retains
  value h v := v.IsThere h
  refl _ := .refl _
  trans := .trans
  inert hv := hv.isThere
  held hcoherent hv := hcoherent.values _ hv
  stays hv hr := hv.retain hr
  newSequence hcoherent hxs :=
    ⟨hcoherent.newSequence hxs, Nat.lt_of_lt_of_eq (Nat.lt_succ_self _) (Array.size_push _).symm⟩

end Heap

namespace Interpreter

/-! ## Transitions -/

/-- A task starts in a fit configuration. -/
theorem StartsIn.fitted {task : Task} (hstart : i.StartsIn n task c n') (hstands : Stands n [] i.state)
    (hco : Coheres n [] i.state) : Fitted n' c := by
  cases hstart with
  | program p => exact ⟨hco.push fun _ hw => hw.elim, fun _ hw => hw ▸ trivial⟩
  | statement st => cases st <;> exact hco.code fun _ hw => hw
  | call hf hvalues =>
    obtain ⟨heap, heap', hembed, hembeds, rfl⟩ := embeds_eq_withHeap hf hvalues
    obtain ⟨⟨hsound, -⟩, hplain, -⟩ := (Heap.Upkeep.sound _).embeds hstands.sound hembed hembeds
    obtain ⟨hkept, hthere, htheres⟩ := (Heap.Upkeep.coherent _).embeds hco.heap hembed hembeds
    exact Config.apply_fitted (hco.grow hkept) hsound hplain hthere htheres
  | invocation hf hvalues =>
    obtain ⟨heap, heap', hembed, hembeds, rfl⟩ := embeds_eq_withHeap hf hvalues
    obtain ⟨⟨hsound, -⟩, hplain, -⟩ := (Heap.Upkeep.sound _).embeds hstands.sound hembed hembeds
    obtain ⟨hkept, hthere, htheres⟩ := (Heap.Upkeep.coherent _).embeds hco.heap hembed hembeds
    exact Config.invoke_fitted (hco.grow hkept) hsound hplain hthere htheres

/-- What a name means in the global scope is there. -/
theorem isThere_of_global {name : String} {v : Value} (hco : Coheres n [] i.state)
    (hv : i.global name = .ok v) : v.IsThere i.state.heap := by
  unfold Interpreter.global at hv
  split at hv
  · rename_i w hw
    exact Except.ok.inj hv ▸ hco.isThere_of_lookup? hw
  · exact absurd hv (by simp)

/-- An edit keeps the heap coherent. -/
theorem Edits.coherent {usage : Usage} (hedit : i.Edits usage j) (hco : Coheres n [] i.state) :
    j.state.heap.Coherent n.declarations ∧ i.state.heap.Retains j.state.heap := by
  cases hedit with
  | @define name d v i' hname hv =>
    obtain ⟨heap, hembed, rfl⟩ := embed_eq_withHeap hv
    obtain ⟨⟨hcoherent, hgrown⟩, hthere⟩ := (Heap.Upkeep.coherent _).embed hco.heap hembed
    obtain ⟨hcoherent', hgrown'⟩ := hcoherent.define (s := i.globals) name hthere
    exact ⟨hcoherent', hgrown.trans hgrown'⟩
  | @assign name d v i' i'' hv h =>
    obtain ⟨heap, hembed, rfl⟩ := embed_eq_withHeap hv
    obtain ⟨⟨hcoherent, hgrown⟩, hthere⟩ := (Heap.Upkeep.coherent _).embed hco.heap hembed
    obtain ⟨heap', hassign, rfl⟩ := assign_eq_withHeap h
    obtain ⟨found, -, rfl⟩ := Option.map_eq_some_iff.1 hassign
    obtain ⟨hcoherent', hgrown'⟩ := hcoherent.define (s := found.1) name hthere
    exact ⟨hcoherent', hgrown.trans hgrown'⟩
  | @setField object field o d v i' ho hv =>
    obtain ⟨heap, hembed, rfl⟩ := embed_eq_withHeap hv
    obtain ⟨⟨hcoherent, hgrown⟩, hthere⟩ := (Heap.Upkeep.coherent _).embed hco.heap hembed
    obtain ⟨hcoherent', hgrown'⟩ := hcoherent.setField o field hthere
    exact ⟨hcoherent', hgrown.trans hgrown'⟩
  | @property object field o ho =>
    have hthere := isThere_of_global hco ho
    rw [property_state, Config.readProperty]
    cases hproperty : i.state.heap.property o field with
    | field v => exact ⟨hco.heap, .refl _⟩
    | missing => exact ⟨hco.heap, .refl _⟩
    | method f => exact hco.heap.newBoundMethod (Heap.binds_of_property hthere hproperty)
  | takeOutput => exact ⟨hco.heap, .refl _⟩
  | printer => exact ⟨hco.heap, .refl _⟩

/-- A transition leads to a fit configuration. -/
theorem NextIn.fitted (hnext : i.NextIn .proper (c, n) (c', n')) (hpinned : Pinned n c) (hfitted : Fitted n c) :
    Fitted n' c' := by
  cases hnext with
  | step => exact hfitted.step i.settings hpinned
  | run htask hstart => exact hstart.fitted hpinned.stands hfitted.coheres
  | edit hedit =>
    have hkept := hedit.coherent hfitted.coheres
    exact ⟨(hfitted.coheres.grow hkept).congr rfl, fun v hv => (hfitted.focus v hv).retain hkept.2⟩

/-- All along a session configurations are fit. -/
theorem Later.fitted (hlater : i.Later .proper c n c' n') (hagrees : i.Agrees c n) (hfitted : Fitted n c) :
    Fitted n' c' := by
  refine (keeps_annotated (p := fun c' n' => i.Agrees c' n' ∧ Fitted n' c') ⟨hagrees, hfitted⟩ ?_ hlater).2
  rintro c₁ n₁ c₂ n₂ ⟨hagrees₁, hfitted₁⟩ hnext
  exact ⟨(Later.continues (.single hnext) hagrees₁).2, NextIn.fitted hnext hagrees₁.pinned hfitted₁⟩

/-! ## The first configuration -/

/-- A heap that has a scope without bindings and nothing else is coherent. -/
theorem bare_coherent : (({} : Heap).newScope none).2.Coherent r := by
  have hempty : ({} : Heap).Coherent r := by
    refine ⟨fun v hv => ?_, fun c p hp => ?_, fun o ho => absurd ho (Nat.not_lt_zero _),
      fun b hb => absurd hb (Nat.not_lt_zero _), fun f _ hf => absurd hf (Nat.not_lt_zero _)⟩
    · cases hv with
      | @bound s name hv =>
        have hnone : ({} : Heap).own s name = none := rfl
        exact absurd (hnone.symm.trans hv) (by simp)
      | element hv => exact absurd hv (by simp [Heap.sequence])
      | @field o name hv =>
        have hnone : (({} : Heap).instanceOf o).fields.find? name = none := rfl
        exact absurd (hnone.symm.trans hv) (by simp)
    · have hnone : (({} : Heap).classOf c).parent = none := rfl
      exact absurd (hnone.symm.trans hp) (by simp)
  exact (hempty.newScope none).1

/-- Builtins are defined in a coherent heap. -/
theorem defineBuiltins_coherent (scope : ScopeId) (hcoherent : h.Coherent r) : (h.defineBuiltins scope).Coherent r :=
  Heap.defineBuiltins_keeps (fun _ b hcoherent' => (hcoherent'.define b.name (v := .builtin b) trivial).1) hcoherent

/-- A session starts in a fit configuration. -/
theorem fitted_fresh (settings : Settings) : Fitted {} (fresh settings).idle := by
  refine ⟨⟨defineBuiltins_coherent ⟨0⟩ bare_coherent, fun _ hframe => absurd hframe List.not_mem_nil,
    fun home hhome k o hko => ?_⟩, fun v hv => hv ▸ trivial⟩
  obtain rfl := List.mem_singleton.1 hhome
  exact absurd hko (by simp)

/-- Every configuration of a session is fit. -/
theorem ReachedIn.fitted (hc : (fresh settings).ReachedIn .proper c n) : Fitted n c :=
  Later.fitted hc (agrees_fresh settings) (fitted_fresh settings)

end Interpreter

/-! ## Running calls -/

/-- The scope in which the caller of a function stands. -/
def Frame.caller? : Frame → Option ScopeId
  | leaveFunction outer => some outer
  | _ => none

/-- The scopes in which the code that runs and the callers of its function stand, innermost first. -/
def Config.callScopes (c : Config) : List ScopeId :=
  c.state.scope :: c.frames.filterMap Frame.caller?

/-- The scope of every caller sees what its code stands for. -/
theorem Framed.sees {home : Home} {callers : List Home} (hframed : Framed r h home callers frames) :
    List.Forall₂ (fun home scope => h.Sees r scope home) callers (frames.filterMap Frame.caller?) := by
  induction hframed with
  | nil => exact .nil
  | leaveBlock _ _ ih => exact ih
  | leaveFunction houter _ ih => exact .cons houter ih
  | @other home callers frames frame hframe _ ih =>
    cases frame with
    | leaveFunction outer => exact hframe.elim
    | _ => exact ih

/-- The scope of every running call sees what its code stands for. -/
theorem Stands.sees_callScopes (hstands : Stands n c.frames c.state) :
    List.Forall₂ (fun home scope => c.state.heap.Sees n.declarations scope home) (n.home :: n.callers) c.callScopes :=
  .cons hstands.sees hstands.framed.sees

namespace Interpreter

/-- What holds of receivers in a configuration of a session. -/
structure FitsReceivers (c : Config) (n : Nesting) : Prop where
  /-- A bound method that is mentioned anywhere is there. -/
  mentioned : ∀ b, c.Mentions (.boundMethod b) → b.index < c.state.heap.boundMethods.size
  /-- The receiver of a bound method is there, and the method is in the table of a class in the ancestry of the
  receiver's class. -/
  boundMethods : ∀ b : BoundMethodId, b.index < c.state.heap.boundMethods.size →
    (c.state.heap.boundMethod b).receiver.index < c.state.heap.instances.size ∧
      ∃ k ∈ c.state.heap.ancestry (c.state.heap.instanceOf (c.state.heap.boundMethod b).receiver).ofClass,
        ∃ name, (c.state.heap.classOf k).methods.find? name = some (c.state.heap.boundMethod b).method
  /-- A call of a method from the table of a class stands in this class and runs on its receiver. -/
  entered : ∀ (k : ClassId) (name : String) (f : FunctionId) (o : InstanceId),
    (c.state.heap.classOf k).methods.find? name = some f → (n.enter f (some o)).home = some (k, o)
  /-- Wherever a running call stands in a class and runs on an instance, `this` is this instance, it is there, and its
  class has the class in its ancestry. -/
  calls : List.Forall₂ (fun home scope => ∀ (k : ClassId) (o : InstanceId), home = some (k, o) →
      c.state.heap.lookup? scope thisName = some (.instanceObject o) ∧ o.index < c.state.heap.instances.size ∧
        k ∈ c.state.heap.ancestry (c.state.heap.instanceOf o).ofClass)
    (n.home :: n.callers) c.callScopes

/-- In a fit configuration that agrees with its nesting, bound methods and `this` fit. -/
theorem fitsReceivers (hpinned : Pinned n c) (hfitted : Fitted n c) : FitsReceivers c n := by
  have hancestry {c' k : ClassId} : k ∈ c.state.heap.ancestry c' ↔ c.state.heap.Inherits c' k :=
    Heap.mem_ancestry_iff hfitted.coheres.heap.parents
  refine ⟨fun b hb => hfitted.isThere hb, fun b hb => ?_, fun k name f o hf => ?_, ?_⟩
  · obtain ⟨k, name, ⟨hthere, hinherits⟩, hmethod⟩ := hfitted.coheres.heap.boundMethods b hb
    exact ⟨hthere, k, hancestry.2 hinherits, name, hmethod⟩
  · have hclass := hpinned.stands.sound.classes k (Heap.index_lt_of_find? hf)
    rw [Nesting.enter, (hclass.methods name f hf).origin]
    rfl
  · have hcalls := (List.forall₂_and_left _ _).2 ⟨hfitted.coheres.homes, hpinned.stands.sees_callScopes⟩
    refine hcalls.imp fun home scope hcall k o hhome => ?_
    obtain ⟨hthere, hinherits⟩ := hcall.1 k o hhome
    refine ⟨?_, hthere, hancestry.2 hinherits⟩
    rw [hcall.2.this, hhome]
    rfl

/-- Bound methods fit their receivers. In a session that starts with a fresh interpreter, as long as the host runs what
is read from texts and defines neither `this` nor `super`, every configuration can be followed together with its
nesting; and with whatever nesting it is reached, the method of every bound method is one of the receiver's class or of
an ancestor of it, and in every running call of a method, also of one that other calls have interrupted, `this` is an
instance whose class has the class of the method in its ancestry. -/
theorem boundMethods_fit (settings : Settings) :
    (∀ c, (fresh settings).Reached .proper c ↔ ∃ n, (fresh settings).ReachedIn .proper c n) ∧
      ∀ c n, (fresh settings).ReachedIn .proper c n → FitsReceivers c n :=
  ⟨fun _ => reached_iff, fun _ _ hc => fitsReceivers hc.agrees.pinned hc.fitted⟩

/-- A method hands out that of the parent, which is called when it has returned. -/
def handedOut : String :=
  "class A{m(){return this;}}class B<A{m(){return super.m;}}var f=B().m();f();"

/-- The program of `handedOut`. -/
def handedOutProgram : Program :=
  [.classDecl "A" none [.mk "m" [] [.returnValue (some .this)]],
    .classDecl "B" (some "A") [.mk "m" [] [.returnValue (some (.super "m"))]],
    .varDecl "f" (some (.call (.get (.call (.variable "B") []) "m") [])),
    .expression (.call (.variable "f") [])]

/-- Where the method of the parent runs, and the nesting there. -/
def handedOutCall : Config × Nesting :=
  follow twoCalls 29 ((fresh twoCalls).start handedOutProgram, {})

/-- The bound method is held by a variable, its receiver is of the second class and its method is that of the first;
where this method runs, `this` is the receiver. -/
theorem boundMethods_fit_handedOut :
    ∃ c n, (fresh twoCalls).ReachedIn .proper c n ∧ c.focus = .evaluate .this ∧ n.home = some (⟨0⟩, ⟨0⟩) ∧
      c.Mentions (.boundMethod ⟨1⟩) ∧ c.state.heap.boundMethod ⟨1⟩ = ⟨⟨0⟩, ⟨0⟩⟩ ∧
      (c.state.heap.instanceOf ⟨0⟩).ofClass = ⟨1⟩ ∧
      (∃ k ∈ c.state.heap.ancestry ⟨1⟩, ∃ name, (c.state.heap.classOf k).methods.find? name = some ⟨0⟩) ∧
      c.state.heap.lookup? c.state.scope thisName = some (.instanceObject ⟨0⟩) ∧ ⟨0⟩ ∈ c.state.heap.ancestry ⟨1⟩ := by
  have hread : Program.parse handedOut = .ok handedOutProgram := (Program.parse_eq _).trans rfl
  have hproper : Usage.proper.task (.program handedOutProgram) := ⟨handedOut, hread⟩
  have hstart : (fresh twoCalls).NextIn .proper ((fresh twoCalls).idle, {})
      ((fresh twoCalls).start handedOutProgram, {}) := .run hproper (.program _)
  have hreached : (fresh twoCalls).ReachedIn .proper handedOutCall.1 handedOutCall.2 :=
    .head hstart (later_follow .proper (fresh twoCalls) 29 _ _)
  have hfits := (boundMethods_fit twoCalls).2 _ _ hreached
  have hheld : handedOutCall.1.state.heap.own ⟨0⟩ "f" = some (.boundMethod ⟨1⟩) := rfl
  have hmentioned : handedOutCall.1.Mentions (.boundMethod ⟨1⟩) := .heap (.bound hheld)
  have hbound : handedOutCall.1.state.heap.boundMethod ⟨1⟩ = ⟨⟨0⟩, ⟨0⟩⟩ := rfl
  have hclass : (handedOutCall.1.state.heap.instanceOf ⟨0⟩).ofClass = ⟨1⟩ := rfl
  have hhome : handedOutCall.2.home = some (⟨0⟩, ⟨0⟩) := rfl
  obtain ⟨-, k, hk, hmethod⟩ := hfits.boundMethods ⟨1⟩ (hfits.mentioned ⟨1⟩ hmentioned)
  rw [hbound, hclass] at hk
  rw [hbound] at hmethod
  have hcalls := hfits.calls
  rw [Config.callScopes, hhome] at hcalls
  cases hcalls with
  | cons hcall _ =>
    obtain ⟨hthis, -, hancestor⟩ := hcall ⟨0⟩ ⟨0⟩ rfl
    rw [hclass] at hancestor
    exact ⟨_, _, hreached, rfl, hhome, hmentioned, hbound, hclass, ⟨k, hk, hmethod⟩, hthis, hancestor⟩

end Interpreter

end Lox
