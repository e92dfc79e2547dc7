import Lox.Proofs.Heap.Receivers

/-!
# The shape of objects

Everything the machine does to a heap is a matter of a few operations on one object each (`Change`). Each of them adds
an object, or binds a name, or replaces an element, or stores a field. So whatever is there stays there and keeps its
shape (`KeepsShape`): scopes stay inside each other and bind what they bound, sequences keep their length, functions and
classes are what they are, and instances keep their class and their fields.
-/

namespace Lox

open Relation (ReflTransGen)

/-- Whatever stands in an array stands at the same place in another, as something to which it is related. -/
def Kept {α : Type} (R : α → α → Prop) (xs ys : Array α) : Prop :=
  ∀ (i : Nat) (x : α), xs[i]? = some x → ∃ y, ys[i]? = some y ∧ R x y

namespace Kept

variable {α : Type} {R : α → α → Prop} {xs ys zs : Array α}

/-- An array is kept if everything is related to itself. -/
theorem refl (hR : ∀ x, R x x) (xs : Array α) : Kept R xs xs :=
  fun _ x hx => ⟨x, hx, hR x⟩

/-- What is kept may be kept on. -/
theorem trans (hR : ∀ x y z, R x y → R y z → R x z) (h : Kept R xs ys) (h' : Kept R ys zs) : Kept R xs zs := by
  intro i x hx
  obtain ⟨y, hy, hxy⟩ := h i x hx
  obtain ⟨z, hz, hyz⟩ := h' i y hy
  exact ⟨z, hz, hR x y z hxy hyz⟩

/-- Something more is added at the end. -/
theorem push (hR : ∀ x, R x x) (xs : Array α) (new : α) : Kept R xs (xs.push new) := by
  intro i x hx
  obtain ⟨hi, -⟩ := Array.getElem?_eq_some_iff.1 hx
  refine ⟨x, ?_, hR x⟩
  rw [Array.getElem?_push, if_neg (Nat.ne_of_lt hi), hx]

/-- One of those that are there is changed into something to which it is related. -/
theorem modify (hR : ∀ x, R x x) (xs : Array α) (slot : Nat) {f : α → α} (hf : ∀ x, R x (f x)) :
    Kept R xs (xs.modify slot f) := by
  intro i x hx
  rw [Array.getElem?_modify]
  split
  · exact ⟨f x, by rw [hx]; rfl, hf x⟩
  · exact ⟨x, hx, hR x⟩

/-- What is at a place that is there is related to what is there in the other array. -/
theorem getD (h : Kept R xs ys) {i : Nat} (hi : i < xs.size) (d : α) :
    i < ys.size ∧ R (xs[i]?.getD d) (ys[i]?.getD d) := by
  obtain ⟨y, hy, hR⟩ := h i xs[i] (Array.getElem?_eq_getElem hi)
  obtain ⟨hi', -⟩ := Array.getElem?_eq_some_iff.1 hy
  rw [Array.getElem?_eq_getElem hi, hy]
  exact ⟨hi', hR⟩

/-- None of those that are there is missing. -/
theorem size_le (h : Kept R xs ys) : xs.size ≤ ys.size := by
  rcases Nat.lt_or_ge ys.size xs.size with hlt | hle
  · obtain ⟨y, hy, -⟩ := h ys.size _ (Array.getElem?_eq_getElem hlt)
    exact absurd (Array.getElem?_eq_some_iff.1 hy).1 (Nat.lt_irrefl _)
  · exact hle

end Kept

/-- All names that are bound stay bound, be it to something else. -/
def Bindings.Keeps (b b' : Bindings Value) : Prop :=
  ∀ name, b.contains name = true → b'.contains name = true

/-- A name that is bound anew leaves the others bound. -/
theorem Bindings.keeps_insert (b : Bindings Value) (name : String) (v : Value) : b.Keeps (b.insert name v) := by
  intro other hother
  rw [Bindings.contains, Bindings.find?_insert]
  split
  · rfl
  · exact hother

/-- A scope stays inside the same scope and loses no binding. -/
structure Scope.Keeps (s s' : Scope) : Prop where
  parent : s'.parent = s.parent
  bindings : s.bindings.Keeps s'.bindings

/-- An instance stays one of the same class and loses no field. -/
structure Instance.Keeps (o o' : Instance) : Prop where
  ofClass : o'.ofClass = o.ofClass
  fields : o.fields.Keeps o'.fields

/-- A sequence keeps its length. -/
def SameLength (xs ys : Array Value) : Prop :=
  ys.size = xs.size

/-- A sequence has its own length. -/
theorem SameLength.refl (xs : Array Value) : SameLength xs xs :=
  rfl

/-- A scope keeps what it is. -/
theorem Scope.Keeps.refl (s : Scope) : s.Keeps s :=
  ⟨rfl, fun _ => id⟩

/-- What a scope keeps may be kept on. -/
theorem Scope.Keeps.trans (s s' s'' : Scope) (h : s.Keeps s') (h' : s'.Keeps s'') : s.Keeps s'' :=
  ⟨h'.parent.trans h.parent, fun name hname => h'.bindings name (h.bindings name hname)⟩

/-- An instance keeps what it is. -/
theorem Instance.Keeps.refl (o : Instance) : o.Keeps o :=
  ⟨rfl, fun _ => id⟩

/-- What an instance keeps may be kept on. -/
theorem Instance.Keeps.trans (o o' o'' : Instance) (h : o.Keeps o') (h' : o'.Keeps o'') : o.Keeps o'' :=
  ⟨h'.ofClass.trans h.ofClass, fun name hname => h'.fields name (h.fields name hname)⟩

namespace Heap

variable {h h' h'' : Heap}

/-- All objects that are there stay there and keep their shape. Scopes keep the scopes around them and their bindings,
sequences their length, functions the scope and the text of their declaration, classes their parent and their table,
instances their class and their fields, and bound methods their receiver and their method. -/
structure KeepsShape (h h' : Heap) : Prop where
  scopes : Kept Scope.Keeps h.scopes h'.scopes
  sequences : Kept SameLength h.sequences h'.sequences
  functions : Kept Eq h.functions h'.functions
  classes : Kept Eq h.classes h'.classes
  instances : Kept Instance.Keeps h.instances h'.instances
  boundMethods : Kept Eq h.boundMethods h'.boundMethods

/-- A heap keeps its shape if nothing happens. -/
theorem KeepsShape.refl (h : Heap) : h.KeepsShape h :=
  ⟨.refl .refl _, .refl SameLength.refl _, .refl (fun _ => rfl) _, .refl (fun _ => rfl) _, .refl .refl _,
    .refl (fun _ => rfl) _⟩

/-- A shape that is kept may be kept on. -/
theorem KeepsShape.trans (hk : h.KeepsShape h') (hk' : h'.KeepsShape h'') : h.KeepsShape h'' where
  scopes := hk.scopes.trans .trans hk'.scopes
  sequences := hk.sequences.trans (fun _ _ _ hxy hyz => hyz.trans hxy) hk'.sequences
  functions := hk.functions.trans (fun _ _ _ => .trans) hk'.functions
  classes := hk.classes.trans (fun _ _ _ => .trans) hk'.classes
  instances := hk.instances.trans .trans hk'.instances
  boundMethods := hk.boundMethods.trans (fun _ _ _ => .trans) hk'.boundMethods

/-- What keeps its shape retains what counts for receivers. -/
theorem KeepsShape.retains (hk : h.KeepsShape h') : h.Retains h' where
  sequences := hk.sequences.size_le
  functions := hk.functions.size_le
  classes _ hc := (hk.classes.getD hc _).imp_right Eq.symm
  instances _ ho := (hk.instances.getD ho _).imp_right Instance.Keeps.ofClass
  boundMethods _ hb := (hk.boundMethods.getD hb _).imp_right Eq.symm

/-! ## Changes -/

/-- What may be done to a heap at once. -/
inductive Change (h : Heap) : Heap → Prop
  | define (s : ScopeId) (name : String) (v : Value) : Change h (h.define s name v)
  | newScope (parent : Option ScopeId) : Change h (h.newScope parent).2
  | newSequence (elements : Array Value) : Change h (h.newSequence elements).2
  | setElement (id : SequenceId) (slot : Nat) (v : Value) : Change h (h.setElement id slot v)
  | newFunction (closure : Closure) : Change h (h.newFunction closure).2
  | newClass (cls : Class) : Change h (h.newClass cls).2
  | newInstance (c : ClassId) : Change h (h.newInstance c).2
  | setField (o : InstanceId) (name : String) (v : Value) : Change h (h.setField o name v)
  | newBoundMethod (o : InstanceId) (f : FunctionId) : Change h (h.newBoundMethod o f).2

/-- What may be done to a heap step by step. -/
def Changes : Heap → Heap → Prop :=
  ReflTransGen Change

/-- What is done at once is done. -/
theorem Change.once (hc : h.Change h') : h.Changes h' :=
  .single hc

/-- Nothing may be done. -/
theorem Changes.refl (h : Heap) : h.Changes h :=
  ReflTransGen.refl

/-- More may be done behind what is done. -/
theorem Changes.trans (hc : h.Changes h') (hc' : h'.Changes h'') : h.Changes h'' :=
  ReflTransGen.trans hc hc'

/-- Every change of a heap keeps the shape of what is there. -/
theorem Change.keepsShape (hc : h.Change h') : h.KeepsShape h' := by
  have hk := KeepsShape.refl h
  cases hc with
  | define s name v => exact { hk with scopes := .modify .refl _ _ fun t => ⟨rfl, t.bindings.keeps_insert name v⟩ }
  | newScope parent => exact { hk with scopes := .push .refl _ _ }
  | newSequence elements => exact { hk with sequences := .push SameLength.refl _ _ }
  | setElement id slot v =>
    exact { hk with sequences := .modify SameLength.refl _ _ fun _ => Array.size_setIfInBounds }
  | newFunction closure => exact { hk with functions := .push (fun _ => rfl) _ _ }
  | newClass cls => exact { hk with classes := .push (fun _ => rfl) _ _ }
  | newInstance c => exact { hk with instances := .push .refl _ _ }
  | setField o name v => exact { hk with instances := .modify .refl _ _ fun i => ⟨rfl, i.fields.keeps_insert name v⟩ }
  | newBoundMethod o f => exact { hk with boundMethods := .push (fun _ => rfl) _ _ }

/-- So do all changes, one after another. -/
theorem Changes.keepsShape (hc : h.Changes h') : h.KeepsShape h' := by
  induction hc with
  | refl => exact .refl h
  | tail _ hlast ih => exact ih.trans hlast.keepsShape

end Heap

end Lox
