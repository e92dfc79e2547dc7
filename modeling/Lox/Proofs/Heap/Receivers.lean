import Lox.Proofs.Heap.Inert
import Lox.Proofs.Heap.Growth

/-!
# Receivers

A method may run on an instance if the class that declares it is the instance's own or one that this inherits from
(`IsInstance`). A heap is coherent (`Coherent`) if every bound method has such an instance for its receiver and every
function was declared by code that runs on such an instance, and if all references lead to objects that are there.
Objects that are there keep what counts for this (`Retains`), and each operation of the machine leaves the heap
coherent.
-/

namespace Lox

open Relation (ReflTransGen)

variable {r r' : Declarations} {h h' h'' : Heap} {s p : ScopeId} {home : Home} {v : Value} {name : String}
  {c k : ClassId} {o : InstanceId} {f : FunctionId}

/-- The object that a value refers to is there. -/
def Value.IsThere (h : Heap) : Value → Prop
  | sequence id => id.index < h.sequences.size
  | function f => f.index < h.functions.size
  | boundMethod b => b.index < h.boundMethods.size
  | classObject c => c.index < h.classes.size
  | instanceObject o => o.index < h.instances.size
  | _ => True

/-- A value that refers to no object needs none. -/
theorem Value.IsInert.isThere (hv : v.IsInert) : v.IsThere h := by
  cases v with
  | number x => trivial
  | string s => trivial
  | boolean b => trivial
  | nil => trivial
  | builtin b => trivial
  | _ => exact hv.elim

namespace Heap

/-! ## What is added -/

/-- A sequence that is added is there. -/
theorem isThere_newSequence (h : Heap) (elements : Array Value) :
    (Value.sequence ⟨h.sequences.size⟩).IsThere (h.newSequence elements).2 :=
  Nat.lt_of_lt_of_eq (Nat.lt_succ_self _) (Array.size_push _).symm

/-- A function that is added is there. -/
theorem isThere_newFunction (h : Heap) (closure : Closure) :
    (Value.function ⟨h.functions.size⟩).IsThere (h.newFunction closure).2 :=
  Nat.lt_of_lt_of_eq (Nat.lt_succ_self _) (Array.size_push _).symm

/-- A class that is added is there. -/
theorem isThere_addClass (h : Heap) (closures : Array Closure) (cls : Class) :
    (Value.classObject ⟨h.classes.size⟩).IsThere (h.addClass closures cls) :=
  Nat.lt_of_lt_of_eq (Nat.lt_succ_self _) (Array.size_push _).symm

/-- An instance that is added is there. -/
theorem isThere_newInstance (h : Heap) (c : ClassId) :
    (Value.instanceObject ⟨h.instances.size⟩).IsThere (h.newInstance c).2 :=
  Nat.lt_of_lt_of_eq (Nat.lt_succ_self _) (Array.size_push _).symm

/-- A bound method that is added is there. -/
theorem isThere_newBoundMethod (h : Heap) (o : InstanceId) (f : FunctionId) :
    (Value.boundMethod ⟨h.boundMethods.size⟩).IsThere (h.newBoundMethod o f).2 :=
  Nat.lt_of_lt_of_eq (Nat.lt_succ_self _) (Array.size_push _).symm

/-- The value that stands for the parent of a class is there if the parent is. -/
theorem isThere_parentValue {parent : Option ClassId} (hparent : ∀ p, parent = some p → p.index < h.classes.size) :
    (parentValue parent).IsThere h := by
  cases parent with
  | none => trivial
  | some p => exact hparent p rfl

/-! ## Coherence -/

/-- An instance is there, and its class is another one or inherits from it. -/
structure IsInstance (h : Heap) (o : InstanceId) (k : ClassId) : Prop where
  there : o.index < h.instances.size
  inherits : h.Inherits (h.instanceOf o).ofClass k

/-- The method of a bound method stands in the table of a class of which the receiver is an instance. -/
def Binds (h : Heap) (b : BoundMethod) : Prop :=
  ∃ k name, h.IsInstance b.receiver k ∧ (h.classOf k).methods.find? name = some b.method

/-- Code that stands in a class runs on an instance of the class. -/
def Suits (h : Heap) (home : Home) : Prop :=
  ∀ k o, home = some (k, o) → h.IsInstance o k

/-- A method that an instance has fits it. -/
theorem binds_of_property (ho : o.index < h.instances.size) (hf : h.property o name = .method f) :
    h.Binds ⟨o, f⟩ := by
  unfold property at hf
  split at hf
  · exact nomatch hf
  · split at hf
    · rename_i f' hmethod
      obtain rfl := Property.method.inj hf
      obtain ⟨k, hinherits, hk⟩ := exists_inherits_of_findMethod? hmethod
      exact ⟨k, name, ⟨ho, hinherits⟩, hk⟩
    · exact nomatch hf

/-- A field that an instance has is held. -/
theorem holds_of_property (hv : h.property o name = .field v) : h.Holds v := by
  unfold property at hv
  split at hv
  · rename_i w hw
    exact Property.field.inj hv ▸ .field hw
  · split at hv <;> exact nomatch hv

/-- What the parent of a class has under a name fits the instances of the class. -/
theorem IsInstance.binds_of_findMethod? {p : ClassId} (ho : h.IsInstance o k) (hp : (h.classOf k).parent = some p)
    (hf : h.findMethod? p name = some f) : h.Binds ⟨o, f⟩ := by
  -- From the class of the instance up to the given one, then to its parent, then up to the method.
  obtain ⟨hthere, hinherits⟩ := ho
  obtain ⟨k', habove, hk'⟩ := exists_inherits_of_findMethod? hf
  exact ⟨k', name, ⟨hthere, (hinherits.tail hp).trans habove⟩, hk'⟩

/-- References lead to objects that are there, bound methods have receivers that they fit, and functions were declared
by code that ran on an instance of its class. -/
structure Coherent (r : Declarations) (h : Heap) : Prop where
  values : ∀ v, h.Holds v → v.IsThere h
  parents : h.ParentsFirst
  instances : ∀ o : InstanceId, o.index < h.instances.size → (h.instanceOf o).ofClass.index < h.classes.size
  boundMethods : ∀ b : BoundMethodId, b.index < h.boundMethods.size → h.Binds (h.boundMethod b)
  origins : ∀ (f : FunctionId) (home : Home), f.index < h.functions.size → r.origin f = .code home → h.Suits home

/-- What is there stays there: classes and bound methods as they are, and instances with their classes. -/
structure Retains (h h' : Heap) : Prop where
  sequences : h.sequences.size ≤ h'.sequences.size
  functions : h.functions.size ≤ h'.functions.size
  classes : ∀ c : ClassId, c.index < h.classes.size → c.index < h'.classes.size ∧ h'.classOf c = h.classOf c
  instances : ∀ o : InstanceId, o.index < h.instances.size →
    o.index < h'.instances.size ∧ (h'.instanceOf o).ofClass = (h.instanceOf o).ofClass
  boundMethods : ∀ b : BoundMethodId, b.index < h.boundMethods.size →
    b.index < h'.boundMethods.size ∧ h'.boundMethod b = h.boundMethod b

/-- A heap retains itself. -/
theorem Retains.refl (h : Heap) : Retains h h :=
  ⟨Nat.le_refl _, Nat.le_refl _, fun _ hc => ⟨hc, rfl⟩, fun _ ho => ⟨ho, rfl⟩, fun _ hb => ⟨hb, rfl⟩⟩

/-- What is retained is retained on. -/
theorem Retains.trans (hr : Retains h h') (hr' : Retains h' h'') : Retains h h'' := by
  refine ⟨Nat.le_trans hr.sequences hr'.sequences, Nat.le_trans hr.functions hr'.functions, fun c hc => ?_,
    fun o ho => ?_, fun b hb => ?_⟩
  · obtain ⟨hc', hclass⟩ := hr.classes c hc
    obtain ⟨hc'', hclass'⟩ := hr'.classes c hc'
    exact ⟨hc'', hclass'.trans hclass⟩
  · obtain ⟨ho', hinstance⟩ := hr.instances o ho
    obtain ⟨ho'', hinstance'⟩ := hr'.instances o ho'
    exact ⟨ho'', hinstance'.trans hinstance⟩
  · obtain ⟨hb', hbound⟩ := hr.boundMethods b hb
    obtain ⟨hb'', hbound'⟩ := hr'.boundMethods b hb'
    exact ⟨hb'', hbound'.trans hbound⟩

end Heap

open Heap

/-- What a value refers to stays there. -/
theorem Value.IsThere.retain (hv : v.IsThere h) (hr : Retains h h') : v.IsThere h' := by
  cases v with
  | sequence id => exact Nat.lt_of_lt_of_le hv hr.sequences
  | function f => exact Nat.lt_of_lt_of_le hv hr.functions
  | boundMethod b => exact (hr.boundMethods b hv).1
  | classObject c => exact (hr.classes c hv).1
  | instanceObject o => exact (hr.instances o hv).1
  | _ => trivial

namespace Heap

/-- A class that is there goes on inheriting from the classes that it inherits from. -/
theorem Inherits.retain (hinherits : h.Inherits c k) (hc : c.index < h.classes.size) (hparents : h.ParentsFirst)
    (hr : Retains h h') : h'.Inherits c k := by
  induction hinherits using ReflTransGen.head_induction_on with
  | refl => exact .refl
  | @head c p hparent _ ih =>
    have holder := hparents c p hparent
    refine .head ?_ (ih (by omega))
    rw [(hr.classes c hc).2]
    exact hparent

/-- An instance of a class stays one. -/
theorem IsInstance.retain (ho : h.IsInstance o k) (hcoherent : Coherent r h) (hr : Retains h h') :
    h'.IsInstance o k := by
  obtain ⟨hthere, hinherits⟩ := ho
  obtain ⟨hthere', hclass⟩ := hr.instances o hthere
  refine ⟨hthere', ?_⟩
  rw [hclass]
  exact hinherits.retain (hcoherent.instances o hthere) hcoherent.parents hr

/-- A bound method goes on fitting its receiver. -/
theorem Binds.retain {b : BoundMethod} (hb : h.Binds b) (hcoherent : Coherent r h) (hr : Retains h h') :
    h'.Binds b := by
  obtain ⟨k, name, ho, hmethod⟩ := hb
  refine ⟨k, name, ho.retain hcoherent hr, ?_⟩
  rw [(hr.classes k (index_lt_of_find? hmethod)).2]
  exact hmethod

/-- Code goes on running on an instance of its class. -/
theorem Suits.retain (hhome : h.Suits home) (hcoherent : Coherent r h) (hr : Retains h h') : h'.Suits home :=
  fun k o hko => (hhome k o hko).retain hcoherent hr

/-- A heap that retains a coherent one is coherent if what is new in it is. -/
theorem Coherent.retain (hcoherent : Coherent r h) (hr : Retains h h')
    (hvalues : ∀ v, h'.Holds v → h.Holds v ∨ v.IsThere h')
    (hparents : ∀ c p, (h'.classOf c).parent = some p → (h.classOf c).parent = some p ∨ p.index < c.index)
    (hinstances : ∀ o : InstanceId, o.index < h'.instances.size →
      o.index < h.instances.size ∨ (h'.instanceOf o).ofClass.index < h'.classes.size)
    (hbound : ∀ b : BoundMethodId, b.index < h'.boundMethods.size →
      b.index < h.boundMethods.size ∨ h'.Binds (h'.boundMethod b))
    (horigins : ∀ (f : FunctionId) (home : Home), f.index < h'.functions.size → r'.origin f = .code home →
      f.index < h.functions.size ∧ r.origin f = .code home ∨ h'.Suits home) : Coherent r' h' := by
  refine ⟨fun v hv => ?_, fun c p hp => ?_, fun o ho => ?_, fun b hb => ?_, fun f home hf horigin => ?_⟩
  · rcases hvalues v hv with hold | hnew
    · exact (hcoherent.values v hold).retain hr
    · exact hnew
  · rcases hparents c p hp with hold | hnew
    · exact hcoherent.parents c p hold
    · exact hnew
  · rcases hinstances o ho with hold | hnew
    · rw [(hr.instances o hold).2]
      exact (hr.classes _ (hcoherent.instances o hold)).1
    · exact hnew
  · rcases hbound b hb with hold | hnew
    · rw [(hr.boundMethods b hold).2]
      exact (hcoherent.boundMethods b hold).retain hcoherent hr
    · exact hnew
  · rcases horigins f home hf horigin with ⟨hold, horigin⟩ | hnew
    · exact (hcoherent.origins f home hold horigin).retain hcoherent hr
    · exact hnew

/-! ## Scopes and sequences -/

/-- What changes scopes and sequences alone leaves the heap coherent if values in it are there. -/
theorem Coherent.of_eq (hcoherent : Coherent r h) (scopes : Array Scope) (sequences : Array (Array Value))
    (hle : h.sequences.size ≤ sequences.size)
    (hvalues : ∀ v, Holds { h with scopes, sequences } v → h.Holds v ∨ v.IsThere h) :
    Coherent r { h with scopes, sequences } ∧ Retains h { h with scopes, sequences } := by
  have hr : Retains h { h with scopes, sequences } :=
    ⟨hle, Nat.le_refl _, fun _ hc => ⟨hc, rfl⟩, fun _ ho => ⟨ho, rfl⟩, fun _ hb => ⟨hb, rfl⟩⟩
  exact ⟨hcoherent.retain hr (fun v hv => (hvalues v hv).imp_right (·.retain hr)) (fun _ _ hp => .inl hp)
    (fun _ ho => .inl ho) (fun _ hb => .inl hb) fun _ _ hf horigin => .inl ⟨hf, horigin⟩, hr⟩

/-- A name is bound to a value that is there. -/
theorem Coherent.define (hcoherent : Coherent r h) (name : String) (hv : v.IsThere h) :
    Coherent r (h.define s name v) ∧ Retains h (h.define s name v) := by
  refine hcoherent.of_eq _ h.sequences (Nat.le_refl _) fun w hw => ?_
  exact (Holds.of_define hw).imp_right fun (hnew : w = v) => hnew ▸ hv

/-- A scope is added. -/
theorem Coherent.newScope (hcoherent : Coherent r h) (parent : Option ScopeId) :
    Coherent r (h.newScope parent).2 ∧ Retains h (h.newScope parent).2 :=
  hcoherent.of_eq _ h.sequences (Nat.le_refl _) fun _ hw => .inl (Holds.of_newScope hw)

/-- A sequence of values that are there is added. -/
theorem Coherent.newSequence (hcoherent : Coherent r h) {elements : Array Value} (hv : ∀ v ∈ elements, v.IsThere h) :
    Coherent r (h.newSequence elements).2 ∧ Retains h (h.newSequence elements).2 :=
  hcoherent.of_eq h.scopes _ (by simp) fun w hw => (Holds.of_newSequence hw).imp_right (hv w)

/-- An element of a sequence is replaced by a value that is there. -/
theorem Coherent.setElement (hcoherent : Coherent r h) (id : SequenceId) (slot : Nat) (hv : v.IsThere h) :
    Coherent r (h.setElement id slot v) ∧ Retains h (h.setElement id slot v) := by
  refine hcoherent.of_eq h.scopes _ (by simp) fun w hw => ?_
  exact (Holds.of_setElement hw).imp_right fun (hnew : w = v) => hnew ▸ hv

/-! ## Instances and bound methods -/

/-- An instance of a class that is there is added. -/
theorem Coherent.newInstance (hcoherent : Coherent r h) (hc : c.index < h.classes.size) :
    Coherent r (h.newInstance c).2 ∧ Retains h (h.newInstance c).2 := by
  have hinstance (o : InstanceId) : (h.newInstance c).2.instanceOf o =
      if o.index = h.instances.size then { ofClass := c } else h.instanceOf o := getD_push
  have hsize : (h.newInstance c).2.instances.size = h.instances.size + 1 := Array.size_push _
  have hr : Retains h (h.newInstance c).2 := by
    refine ⟨Nat.le_refl _, Nat.le_refl _, fun _ hc => ⟨hc, rfl⟩, fun o ho => ⟨by omega, ?_⟩, fun _ hb => ⟨hb, rfl⟩⟩
    rw [hinstance, if_neg (Nat.ne_of_lt ho)]
  refine ⟨hcoherent.retain hr (fun _ hv => .inl (Holds.of_newInstance hv)) (fun _ _ hp => .inl hp) (fun o ho => ?_)
    (fun _ hb => .inl hb) fun _ _ hf horigin => .inl ⟨hf, horigin⟩, hr⟩
  rw [hinstance]
  split
  · exact .inr hc
  · exact .inl (by omega)

/-- The instance that is added is one of the classes that its class inherits from. -/
theorem isInstance_newInstance (hinherits : h.Inherits c k) : (h.newInstance c).2.IsInstance ⟨h.instances.size⟩ k := by
  have hinstance : (h.newInstance c).2.instanceOf ⟨h.instances.size⟩ = { ofClass := c } :=
    getD_push.trans (if_pos rfl)
  refine ⟨by simp [Heap.newInstance], ?_⟩
  rw [hinstance]
  exact hinherits

/-- A value that is there is stored in a field. -/
theorem Coherent.setField (hcoherent : Coherent r h) (o : InstanceId) (name : String) (hv : v.IsThere h) :
    Coherent r (h.setField o name v) ∧ Retains h (h.setField o name v) := by
  have hinstance (t : InstanceId) : ((h.setField o name v).instanceOf t).ofClass = (h.instanceOf t).ofClass := by
    simp only [instanceOf, Heap.setField, Array.getElem?_modify]
    split
    · cases h.instances[t.index]? <;> rfl
    · rfl
  have hsize : (h.setField o name v).instances.size = h.instances.size := Array.size_modify
  have hr : Retains h (h.setField o name v) :=
    ⟨Nat.le_refl _, Nat.le_refl _, fun _ hc => ⟨hc, rfl⟩, fun t ht => ⟨by omega, hinstance t⟩, fun _ hb => ⟨hb, rfl⟩⟩
  refine ⟨hcoherent.retain hr (fun w hw => ?_) (fun _ _ hp => .inl hp) (fun t ht => .inl (by omega))
    (fun _ hb => .inl hb) fun _ _ hf horigin => .inl ⟨hf, horigin⟩, hr⟩
  exact (Holds.of_setField hw).imp_right fun (hnew : w = v) => hnew ▸ hv.retain hr

/-- A method is bound to an instance that it fits. -/
theorem Coherent.newBoundMethod (hcoherent : Coherent r h) (hb : h.Binds ⟨o, f⟩) :
    Coherent r (h.newBoundMethod o f).2 ∧ Retains h (h.newBoundMethod o f).2 := by
  have hbound (b : BoundMethodId) : (h.newBoundMethod o f).2.boundMethod b =
      if b.index = h.boundMethods.size then ⟨o, f⟩ else h.boundMethod b := getD_push
  have hsize : (h.newBoundMethod o f).2.boundMethods.size = h.boundMethods.size + 1 := Array.size_push _
  have hr : Retains h (h.newBoundMethod o f).2 := by
    refine ⟨Nat.le_refl _, Nat.le_refl _, fun _ hc => ⟨hc, rfl⟩, fun _ ho => ⟨ho, rfl⟩, fun b hb => ⟨by omega, ?_⟩⟩
    rw [hbound, if_neg (Nat.ne_of_lt hb)]
  refine ⟨hcoherent.retain hr (fun _ hv => .inl (hv.of_eq rfl rfl rfl)) (fun _ _ hp => .inl hp) (fun _ ho => .inl ho)
    (fun b hb' => ?_) fun _ _ hf horigin => .inl ⟨hf, horigin⟩, hr⟩
  rw [hbound]
  split
  · exact .inr (hb.retain hcoherent hr)
  · exact .inl (by omega)

/-! ## Functions and classes -/

/-- A function is added that code declares which runs on an instance of its class. -/
theorem Coherent.newFunction (hcoherent : Coherent r h) (closure : Closure) (hhome : h.Suits home) :
    Coherent (r.withFunction h home) (h.newFunction closure).2 ∧ Retains h (h.newFunction closure).2 := by
  have hr : Retains h (h.newFunction closure).2 :=
    ⟨Nat.le_refl _, by simp [Heap.newFunction], fun _ hc => ⟨hc, rfl⟩, fun _ ho => ⟨ho, rfl⟩, fun _ hb => ⟨hb, rfl⟩⟩
  refine ⟨hcoherent.retain hr (fun _ hv => .inl (hv.of_eq rfl rfl rfl)) (fun _ _ hp => .inl hp) (fun _ ho => .inl ho)
    (fun _ hb => .inl hb) fun f home' _ horigin => ?_, hr⟩
  change (if f.index < h.functions.size then r.origin f else .code home) = .code home' at horigin
  split at horigin
  · rename_i hold
    exact .inl ⟨hold, horigin⟩
  · obtain rfl := Origin.code.inj horigin
    exact .inr (hhome.retain hcoherent hr)

/-- A class whose parent is there is added with its methods. -/
theorem Coherent.addClass (hcoherent : Coherent r h) (closures : Array Closure) (cls : Class) (parent : Value)
    (hparent : ∀ p, cls.parent = some p → p.index < h.classes.size) :
    Coherent (r.withClass h parent) (h.addClass closures cls) ∧ Retains h (h.addClass closures cls) := by
  have hsize : (h.addClass closures cls).classes.size = h.classes.size + 1 := Array.size_push _
  have hr : Retains h (h.addClass closures cls) := by
    refine ⟨Nat.le_refl _, ?_, fun c hc => ⟨by omega, ?_⟩, fun _ ho => ⟨ho, rfl⟩, fun _ hb => ⟨hb, rfl⟩⟩
    · show h.functions.size ≤ (h.functions ++ closures).size
      rw [Array.size_append]
      omega
    · rw [classOf_addClass, if_neg (Nat.ne_of_lt hc)]
  refine ⟨hcoherent.retain hr (fun _ hv => .inl (hv.of_eq rfl rfl rfl)) (fun c p hp => ?_) (fun _ ho => .inl ho)
    (fun _ hb => .inl hb) fun f home _ horigin => ?_, hr⟩
  · rw [classOf_addClass] at hp
    split at hp
    · rename_i hlast
      exact .inr (hlast ▸ hparent p hp)
    · exact .inl hp
  · change (if f.index < h.functions.size then r.origin f else .method _) = .code home at horigin
    split at horigin
    · rename_i hold
      exact .inl ⟨hold, horigin⟩
    · exact nomatch horigin

end Heap

end Lox
