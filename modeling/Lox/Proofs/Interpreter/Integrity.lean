import Lox.Proofs.Heap.Walks
import Lox.Proofs.Interpreter.ForLoop
import Lox.Proofs.Machine.Integrity

/-!
# Chains end and references hold

Whatever a host runs in a session and does to it, at every moment every scope is younger than the one around it and
every class younger than its parent, and whatever is referred to anywhere is there (`chains_end`). So walks from scope
to scope and from class to class end, with what the bounded walks of the heap answer.
-/

namespace Lox

open Relation (TransGen)

/-- New sequences of values that are there keep a heap intact. -/
def Heap.Upkeep.intact : Upkeep where
  heap := IsIntact
  grows := Retains
  value h v := v.IsThere h
  refl _ := .refl _
  trans := .trans
  inert hv := hv.isThere
  held hintact hv := hintact.values _ hv
  stays hv hr := hv.retain hr
  newSequence hintact hxs := ⟨hintact.newSequence hxs, isThere_newSequence _ _⟩

namespace Interpreter

open Config

variable {usage : Usage} {i j : Interpreter} {c c' : Config} {settings : Settings}

/-! ## Transitions -/

/-- A task starts in an intact configuration. -/
theorem Starts.isIntact {task : Task} (hstart : i.Starts task c) (hi : Sustains [] i.state) : c.IsIntact := by
  cases hstart with
  | program p => exact ⟨hi.push fun _ hw => hw.elim, fun _ hw => hw ▸ trivial⟩
  | statement st => cases st <;> exact hi.code fun _ hw => hw
  | call hf hvalues =>
    obtain ⟨heap, heap', hembed, hembeds, rfl⟩ := embeds_eq_withHeap hf hvalues
    obtain ⟨hkept, hthere, htheres⟩ := Heap.Upkeep.intact.embeds hi.heap hembed hembeds
    exact apply_isIntact (hi.grow hkept) hthere htheres
  | invocation hf hvalues =>
    obtain ⟨heap, heap', hembed, hembeds, rfl⟩ := embeds_eq_withHeap hf hvalues
    obtain ⟨hkept, hthere, htheres⟩ := Heap.Upkeep.intact.embeds hi.heap hembed hembeds
    exact invoke_isIntact (hi.grow hkept) hthere htheres

/-- What a name means in the global scope is there. -/
theorem isThere_of_global_intact {name : String} {v : Value} (hi : i.state.heap.IsIntact) (hv : i.global name = .ok v) :
    v.IsThere i.state.heap := by
  unfold Interpreter.global at hv
  split at hv
  · rename_i w hw
    exact Except.ok.inj hv ▸ hi.of_lookup? hw
  · cases hv

/-- An edit keeps the heap intact, and what is there stays there. -/
theorem Edits.isIntact (hedit : i.Edits usage j) (hi : i.state.heap.IsIntact) :
    j.state.heap.IsIntact ∧ i.state.heap.Retains j.state.heap := by
  cases hedit with
  | @define name d v i' hname hv =>
    obtain ⟨heap, hembed, rfl⟩ := embed_eq_withHeap hv
    obtain ⟨⟨hintact, hgrown⟩, hthere⟩ := Heap.Upkeep.intact.embed hi hembed
    obtain ⟨hintact', hgrown'⟩ := hintact.define i.globals name hthere
    exact ⟨hintact', hgrown.trans hgrown'⟩
  | @assign name d v i' i'' hv h =>
    obtain ⟨heap, hembed, rfl⟩ := embed_eq_withHeap hv
    obtain ⟨⟨hintact, hgrown⟩, hthere⟩ := Heap.Upkeep.intact.embed hi hembed
    obtain ⟨heap', hassign, rfl⟩ := assign_eq_withHeap h
    obtain ⟨found, -, rfl⟩ := Option.map_eq_some_iff.1 hassign
    obtain ⟨hintact', hgrown'⟩ := hintact.define found.1 name hthere
    exact ⟨hintact', hgrown.trans hgrown'⟩
  | @setField object field o d v i' ho hv =>
    obtain ⟨heap, hembed, rfl⟩ := embed_eq_withHeap hv
    obtain ⟨⟨hintact, hgrown⟩, hthere⟩ := Heap.Upkeep.intact.embed hi hembed
    obtain ⟨hintact', hgrown'⟩ := hintact.setField o field hthere
    exact ⟨hintact', hgrown.trans hgrown'⟩
  | @property object field o ho =>
    have hthere : o.index < i.state.heap.instances.size := isThere_of_global_intact hi ho
    rw [property_state, Config.readProperty]
    cases hproperty : i.state.heap.property o field with
    | field v => exact ⟨hi, .refl _⟩
    | missing => exact ⟨hi, .refl _⟩
    | method f => exact hi.newBoundMethod hthere (hi.of_property hproperty)
  | takeOutput => exact ⟨hi, .refl _⟩
  | printer => exact ⟨hi, .refl _⟩

/-- A transition leads to an intact configuration. -/
theorem Next.isIntact (hnext : i.Next usage c c') (hc : c.IsIntact) : c'.IsIntact := by
  cases hnext with
  | step => exact step_isIntact i.settings hc
  | run htask hstart => exact hstart.isIntact hc.sustains
  | edit hedit =>
    obtain ⟨hintact, hgrown⟩ := hedit.isIntact hc.sustains.heap
    exact ⟨⟨hintact, List.forall_mem_nil _⟩, fun v hv => (hc.focus v hv).retain hgrown⟩

/-! ## The first configuration -/

/-- A heap without objects is intact. -/
theorem isIntact_empty : ({} : Heap).IsIntact := by
  refine ⟨fun v hv => ?_, fun c p hp => ?_, fun c name f hf => ?_, fun o ho => absurd ho (Nat.not_lt_zero _),
    fun b hb => absurd hb (Nat.not_lt_zero _)⟩
  · cases hv with
    | @bound s name hv =>
      have hnone : ({} : Heap).own s name = none := rfl
      cases hnone.symm.trans hv
    | element hv => exact absurd hv (by simp [Heap.sequence])
    | @field o name hv =>
      have hnone : (({} : Heap).instanceOf o).fields.find? name = none := rfl
      cases hnone.symm.trans hv
  · have hnone : (({} : Heap).classOf c).parent = none := rfl
    cases hnone.symm.trans hp
  · have hnone : (({} : Heap).classOf c).methods.find? name = none := rfl
    cases hnone.symm.trans hf

/-- Builtins are bound in an intact heap. -/
theorem isIntact_defineBuiltins {h : Heap} (hh : h.IsIntact) (scope : ScopeId) : (h.defineBuiltins scope).IsIntact :=
  Heap.defineBuiltins_keeps (fun _ b hh' => (hh'.define (v := .builtin b) scope b.name trivial).1) hh

/-- Every configuration of a session is intact. -/
theorem Reached.isIntact (hc : (fresh settings).Reached usage c) : c.IsIntact := by
  induction hc with
  | refl =>
    have hfresh := isIntact_defineBuiltins (isIntact_empty.newScope none).1 (bare settings).globals
    exact ⟨⟨hfresh, List.forall_mem_nil _⟩, fun _ hv => hv ▸ trivial⟩
  | tail _ hnext ih => exact hnext.isIntact ih

/-! ## What holds of a session -/

/-- What holds of the references of a configuration. -/
structure HoldsTogether (c : Config) : Prop where
  /-- A scope that stands in another is younger than that, and both are there. -/
  scopeParents : ∀ s p, (c.state.heap.scope s).parent = some p →
    p.index < s.index ∧ s.index < c.state.heap.scopes.size
  /-- A class that has a parent is younger than that, and both are there. -/
  classParents : ∀ k p, (c.state.heap.classOf k).parent = some p →
    p.index < k.index ∧ k.index < c.state.heap.classes.size
  /-- No scope stands in itself, however far outwards. -/
  scopeChains : ∀ s, ¬TransGen (fun s p => (c.state.heap.scope s).parent = some p) s s
  /-- No class is its own ancestor. -/
  classChains : ∀ k, ¬TransGen (fun k p => (c.state.heap.classOf k).parent = some p) k k
  /-- What is in focus, kept by a frame, bound in a scope, an element of a sequence or stored in a field is there. -/
  values : ∀ v, c.Mentions v → v.IsThere c.state.heap
  /-- The current scope is there, and so are those to which blocks and functions lead back. -/
  scopes : c.state.scope.index < c.state.heap.scopes.size ∧
    ∀ frame ∈ c.frames, frame.IsGrounded c.state.heap.scopes.size
  /-- The scopes in which functions were declared are there. -/
  closures : ∀ closure ∈ c.state.heap.functions, closure.scope.index < c.state.heap.scopes.size
  /-- The methods in the tables of classes are there. -/
  methods : ∀ (k : ClassId) (name : String) (f : FunctionId),
    (c.state.heap.classOf k).methods.find? name = some f → f.index < c.state.heap.functions.size
  /-- The classes of instances are there. -/
  instances : ∀ o : InstanceId, o.index < c.state.heap.instances.size →
    (c.state.heap.instanceOf o).ofClass.index < c.state.heap.classes.size
  /-- The receivers and the methods of bound methods are there. -/
  boundMethods : ∀ b : BoundMethodId, b.index < c.state.heap.boundMethods.size →
    (c.state.heap.boundMethod b).receiver.index < c.state.heap.instances.size ∧
      (c.state.heap.boundMethod b).method.index < c.state.heap.functions.size
  /-- The walk outwards from a scope ends in one way, which decides what a name means there and where it is assigned. -/
  names : ∀ (s : ScopeId) (name : String), ∃ found,
    (∀ r, Walk (c.state.heap.ownAt name) (fun s => (c.state.heap.scope s).parent) s r ↔ r = found) ∧
      c.state.heap.lookup? s name = found.map Prod.snd ∧
      ∀ v, c.state.heap.assign? s name v = found.map fun binding => c.state.heap.define binding.1 name v
  /-- The walk from a class to its ancestors ends in one way, which is the method that the class has. -/
  ancestors : ∀ (k : ClassId) (name : String) (r : Option FunctionId),
    Walk (fun k => (c.state.heap.classOf k).methods.find? name) (fun k => (c.state.heap.classOf k).parent) k r ↔
      r = c.state.heap.findMethod? k name

/-- Chains end and references hold. Whatever programs, statements and calls a host runs in a session and whatever it
defines, assigns and stores, failed attempts included, at every moment of the session every class is younger than its
parent and every scope younger than the one around it, so that none comes before itself; whatever is referred to by a
scope, a field, a sequence, a function, the table of a class, a bound method or a value that is waited for is there; and
the walks from scope to scope and from class to class end. -/
theorem chains_end (settings : Settings) (c : Config) (hc : (fresh settings).Reached .any c) : HoldsTogether c := by
  obtain ⟨hheap, hscope, hframes⟩ := hc.isGrounded
  have hintact := hc.isIntact
  have hparents := hintact.sustains.heap.parents
  exact
    { scopeParents := fun s p hp => ⟨hheap.nested s p hp, Heap.index_lt_of_scope_parent hp⟩
      classParents := fun k p hp => ⟨hparents k p hp, Heap.index_lt_of_class_parent hp⟩
      scopeChains := not_transGen_self_of_lt ScopeId.index hheap.nested
      classChains := not_transGen_self_of_lt ClassId.index hparents
      values := fun v hv => hintact.isThere hv
      scopes := ⟨hscope, hframes⟩
      closures := hheap.functions
      methods := hintact.sustains.heap.methods
      instances := hintact.sustains.heap.instances
      boundMethods := hintact.sustains.heap.boundMethods
      names := fun s name => ⟨_, (Heap.walk_locate? hheap.nested s name).iff_eq, rfl, fun _ => rfl⟩
      ancestors := fun k name => (Heap.walk_findMethod? hparents k name).iff_eq }

/-- A class, and another one of the same name that inherits from it. -/
def redeclaration : Program :=
  [.classDecl "A" none [], .classDecl "A" (some "A") []]

/-- What has become of a session in which a host has run `redeclaration` and then defined a list of the class. -/
def afterRedeclaration : Interpreter :=
  let i := (fresh ⟨3, fun _ => 0⟩).atState
    (((fresh ⟨3, fun _ => 0⟩).start redeclaration).advance ⟨3, fun _ => 0⟩ 10).state
  (i.withHeap (i.state.heap.newSequence #[.classObject ⟨1⟩]).2).define "B" (.sequence ⟨0⟩)

/-- The class inherits from the one whose name it has taken, and from no class that comes back to it. -/
theorem chains_end_redeclaration :
    (fresh ⟨3, fun _ => 0⟩).Reached .any afterRedeclaration.idle ∧
      (afterRedeclaration.state.heap.classOf ⟨1⟩).parent = some ⟨0⟩ ∧ HoldsTogether afterRedeclaration.idle := by
  have hrun : (fresh ⟨3, fun _ => 0⟩).Reached .any
      (((fresh ⟨3, fun _ => 0⟩).start redeclaration).advance ⟨3, fun _ => 0⟩ 10) :=
    (Relation.ReflTransGen.refl.tail (.run trivial (.program redeclaration))).trans (advance_reaches 10 _)
  have hlist : ((fresh ⟨3, fun _ => 0⟩).atState
      (((fresh ⟨3, fun _ => 0⟩).start redeclaration).advance ⟨3, fun _ => 0⟩ 10).state).embed (.list [.named "A"]) =
      .ok (.sequence ⟨0⟩, _) := rfl
  have hreached : (fresh ⟨3, fun _ => 0⟩).Reached .any afterRedeclaration.idle :=
    hrun.tail (.edit (.define trivial hlist))
  exact ⟨hreached, rfl, chains_end ⟨3, fun _ => 0⟩ _ hreached⟩

end Interpreter

end Lox
