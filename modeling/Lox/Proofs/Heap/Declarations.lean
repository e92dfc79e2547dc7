import Lox.Proofs.Grammar.Names
import Lox.Proofs.Heap.Scopes

/-!
# Declarations

A record of what a heap does not tell: where each function was declared, and to what the parent of each class was
evaluated at its declaration (`Declarations`). A heap is sound for such a record (`Sound`) if `super` is bound by the
scope of a method to the parent on record, and if `super` and `this` mean around any other function what they meant
where it was declared. A heap may grow (`Extends`), and whatever was seen in a scope is seen there from then on.
-/

namespace Lox

/-- Where code stands: outside of all classes, or in a method of a class that runs on an instance. -/
abbrev Home := Option (ClassId × InstanceId)

/-- Where a function was declared: by code that stood somewhere, or as a method of a class. -/
inductive Origin where
  | code (home : Home)
  | method (c : ClassId)

/-- Where functions were declared, and to what the parents of classes were evaluated then. -/
structure Declarations where
  origin : FunctionId → Origin := fun _ => .code none
  parent : ClassId → Value := fun _ => .nil

/-- What `super` stands for in a class with some parent or none. -/
def parentValue : Option ClassId → Value
  | some c => .classObject c
  | none => .nil

/-- The name of the instance is not to be bound. -/
theorem not_bindable_this : ¬Bindable thisName :=
  fun h => h.1 rfl

/-- The name of the parent is not to be bound. -/
theorem not_bindable_super : ¬Bindable superName :=
  fun h => h.2 rfl

variable {r r' r'' : Declarations} {h h' h'' : Heap} {s p : ScopeId} {home : Home} {v : Value} {name : String}

/-- A function that is a value is no method, and bound methods are there. -/
def Value.IsPlain (r : Declarations) (h : Heap) : Value → Prop
  | .function f => f.index < h.functions.size ∧ ∃ home, r.origin f = .code home
  | .boundMethod b => b.index < h.boundMethods.size
  | _ => True

namespace Heap

/-- A value that is bound in a scope, or an element of a sequence, or stored in a field. -/
inductive Holds (h : Heap) (v : Value) : Prop
  | bound {s : ScopeId} {name : String} (hv : h.own s name = some v)
  | element {id : SequenceId} (hv : v ∈ h.sequence id)
  | field {o : InstanceId} {name : String} (hv : (h.instanceOf o).fields.find? name = some v)

/-- What `super` and `this` mean in a scope is what they stand for in code that stands somewhere. -/
structure Sees (r : Declarations) (h : Heap) (s : ScopeId) (home : Home) : Prop where
  there : s.index < h.scopes.size
  known : ∀ x, home = some x → x.1.index < h.classes.size
  super : h.lookup? s superName = home.map fun x => r.parent x.1
  this : h.lookup? s thisName = home.map fun x => .instanceObject x.2

/-- A function is a method of a class. -/
structure IsMethod (r : Declarations) (h : Heap) (c : ClassId) (f : FunctionId) : Prop where
  there : f.index < h.functions.size
  origin : r.origin f = .method c

/-- A function binds neither `this` nor `super` in its code. If it is a method, then its scope binds `super` to the
parent of its class; if not, then its scope sees what the code of its declaration saw. -/
structure IsClosed (r : Declarations) (h : Heap) (f : FunctionId) : Prop where
  there : (h.function f).scope.index < h.scopes.size
  binds : (h.function f).declaration.BindsOnly Bindable
  code : ∀ home, r.origin f = .code home → Sees r h (h.function f).scope home
  method : ∀ c, r.origin f = .method c →
    c.index < h.classes.size ∧ h.own (h.function f).scope superName = some (r.parent c)

/-- The functions of a class are its methods, and its parent is the one on record. -/
structure IsTabled (r : Declarations) (h : Heap) (c : ClassId) : Prop where
  methods : ∀ name f, (h.classOf c).methods.find? name = some f → IsMethod r h c f
  parent : r.parent c = parentValue (h.classOf c).parent

/-- All objects are as the record says. -/
structure Sound (r : Declarations) (h : Heap) : Prop where
  nested : h.Nested
  values : ∀ v, h.Holds v → v.IsPlain r h
  functions : ∀ f : FunctionId, f.index < h.functions.size → IsClosed r h f
  classes : ∀ c : ClassId, c.index < h.classes.size → IsTabled r h c
  boundMethods : ∀ b : BoundMethodId, b.index < h.boundMethods.size →
    ∃ c, IsMethod r h c (h.boundMethod b).method

/-- What is there stays there: scopes with the scopes around them and with what `this` and `super` mean in them,
functions and classes as they were declared. -/
structure Extends (r r' : Declarations) (h h' : Heap) : Prop where
  nested : h.Nested
  nested' : h'.Nested
  scopes : ∀ s : ScopeId, s.index < h.scopes.size → s.index < h'.scopes.size ∧
    (h'.scope s).parent = (h.scope s).parent ∧ ∀ name, ¬Bindable name → h'.own s name = h.own s name
  functions : ∀ f : FunctionId, f.index < h.functions.size → f.index < h'.functions.size ∧
    h'.function f = h.function f ∧ r'.origin f = r.origin f
  classes : ∀ c : ClassId, c.index < h.classes.size → c.index < h'.classes.size ∧
    h'.classOf c = h.classOf c ∧ r'.parent c = r.parent c
  boundMethods : h.boundMethods.size ≤ h'.boundMethods.size

/-- What is held does not depend on functions, classes and bound methods. -/
theorem Holds.of_eq (hv : h'.Holds v) (hscopes : h'.scopes = h.scopes) (hsequences : h'.sequences = h.sequences)
    (hinstances : h'.instances = h.instances) : h.Holds v := by
  cases hv with
  | bound hv =>
    rw [own, scope, hscopes] at hv
    exact .bound hv
  | element hv =>
    rw [sequence, hsequences] at hv
    exact .element hv
  | field hv =>
    rw [instanceOf, hinstances] at hv
    exact .field hv

/-- The elements of sequences are plain. -/
theorem Sound.sequences (hsound : Sound r h) (id : SequenceId) (v : Value) (hv : v ∈ h.sequence id) : v.IsPlain r h :=
  hsound.values v (.element hv)

/-! ## Growth -/

/-- A nested heap extends itself. -/
theorem Extends.refl (hnested : h.Nested) : Extends r r h h :=
  ⟨hnested, hnested, fun _ hs => ⟨hs, rfl, fun _ _ => rfl⟩, fun _ hf => ⟨hf, rfl, rfl⟩, fun _ hc => ⟨hc, rfl, rfl⟩,
    Nat.le_refl _⟩

/-- What extends an extension extends the heap that was extended. -/
theorem Extends.trans (he : Extends r r' h h') (he' : Extends r' r'' h' h'') : Extends r r'' h h'' := by
  refine ⟨he.nested, he'.nested', fun s hs => ?_, fun f hf => ?_, fun c hc => ?_,
    Nat.le_trans he.boundMethods he'.boundMethods⟩
  · obtain ⟨hs', hparent, hown⟩ := he.scopes s hs
    obtain ⟨hs'', hparent', hown'⟩ := he'.scopes s hs'
    exact ⟨hs'', hparent'.trans hparent, fun name hname => (hown' name hname).trans (hown name hname)⟩
  · obtain ⟨hf', hfunction, horigin⟩ := he.functions f hf
    obtain ⟨hf'', hfunction', horigin'⟩ := he'.functions f hf'
    exact ⟨hf'', hfunction'.trans hfunction, horigin'.trans horigin⟩
  · obtain ⟨hc', hclass, hparent⟩ := he.classes c hc
    obtain ⟨hc'', hclass', hparent'⟩ := he'.classes c hc'
    exact ⟨hc'', hclass'.trans hclass, hparent'.trans hparent⟩

/-- A heap with the same scopes, functions and classes is an extension. -/
theorem Extends.of_eq (hnested : h.Nested) (hscopes : h'.scopes = h.scopes) (hfunctions : h'.functions = h.functions)
    (hclasses : h'.classes = h.classes) (hbound : h.boundMethods.size ≤ h'.boundMethods.size) :
    Extends r r h h' := by
  have hscope (s : ScopeId) : h'.scope s = h.scope s := by rw [scope, scope, hscopes]
  have hfunction (f : FunctionId) : h'.function f = h.function f := by rw [function, function, hfunctions]
  have hclass (c : ClassId) : h'.classOf c = h.classOf c := by rw [classOf, classOf, hclasses]
  refine ⟨hnested, fun s p hp => ?_, fun s hs => ?_, fun f hf => ?_, fun c hc => ?_, hbound⟩
  · rw [hscope] at hp
    exact hnested s p hp
  · exact ⟨by rwa [hscopes], by rw [hscope], fun name _ => by rw [own, own, hscope]⟩
  · exact ⟨by rwa [hfunctions], hfunction f, rfl⟩
  · exact ⟨by rwa [hclasses], hclass c, rfl⟩

/-- What `this` and `super` mean in a scope that is there, they mean from then on. -/
theorem Extends.lookup? (he : Extends r r' h h') (hs : s.index < h.scopes.size) (hname : ¬Bindable name) :
    h'.lookup? s name = h.lookup? s name := by
  refine lookup?_congr he.nested he.nested' (fun t ht => ?_) fun t ht => ?_
  · exact (he.scopes t (by omega)).2.2 name hname
  · exact (he.scopes t (by omega)).2.1

end Heap

/-- A value stays plain. -/
theorem Value.IsPlain.extend (hv : v.IsPlain r h) (he : Heap.Extends r r' h h') : v.IsPlain r' h' := by
  cases v with
  | function f =>
    obtain ⟨hf, home, horigin⟩ := hv
    obtain ⟨hf', -, horigin'⟩ := he.functions f hf
    exact ⟨hf', home, horigin'.trans horigin⟩
  | boundMethod b => exact Nat.lt_of_lt_of_le hv he.boundMethods
  | _ => trivial

namespace Heap

/-- A scope goes on seeing what it saw. -/
theorem Sees.extend (hsees : Sees r h s home) (he : Extends r r' h h') : Sees r' h' s home := by
  obtain ⟨hs, hknown, hsuper, hthis⟩ := hsees
  refine ⟨(he.scopes s hs).1, fun x hx => (he.classes x.1 (hknown x hx)).1, ?_, ?_⟩
  · rw [he.lookup? hs not_bindable_super, hsuper]
    cases home with
    | none => rfl
    | some x => rw [Option.map_some, Option.map_some, (he.classes x.1 (hknown x rfl)).2.2]
  · rw [he.lookup? hs not_bindable_this, hthis]

/-- A method stays a method. -/
theorem IsMethod.extend {c : ClassId} {f : FunctionId} (hf : IsMethod r h c f) (he : Extends r r' h h') :
    IsMethod r' h' c f := by
  obtain ⟨hthere, horigin⟩ := hf
  obtain ⟨hthere', -, horigin'⟩ := he.functions f hthere
  exact ⟨hthere', horigin'.trans horigin⟩

/-- A function stays closed. -/
theorem IsClosed.extend {f : FunctionId} (hclosed : IsClosed r h f) (hf : f.index < h.functions.size)
    (he : Extends r r' h h') : IsClosed r' h' f := by
  obtain ⟨hthere, hbinds, hcode, hmethod⟩ := hclosed
  obtain ⟨-, hfunction, horigin⟩ := he.functions f hf
  obtain ⟨hthere', -, hown⟩ := he.scopes _ hthere
  refine ⟨by rwa [hfunction], by rwa [hfunction], fun home hhome => ?_, fun c hc => ?_⟩
  · rw [hfunction]
    exact (hcode home (horigin ▸ hhome)).extend he
  · obtain ⟨hknown, hsuper⟩ := hmethod c (horigin ▸ hc)
    obtain ⟨hknown', -, hparent⟩ := he.classes c hknown
    exact ⟨hknown', by rw [hfunction, hown superName not_bindable_super, hsuper, hparent]⟩

/-- A class keeps its methods and its parent. -/
theorem IsTabled.extend {c : ClassId} (htabled : IsTabled r h c) (hc : c.index < h.classes.size)
    (he : Extends r r' h h') : IsTabled r' h' c := by
  obtain ⟨hmethods, hparent⟩ := htabled
  obtain ⟨-, hclass, hparent'⟩ := he.classes c hc
  refine ⟨fun name f hf => ?_, ?_⟩
  · rw [hclass] at hf
    exact (hmethods name f hf).extend he
  · rw [hparent', hclass, hparent]

/-- An extension of a sound heap is sound if what is new in it is. -/
theorem Sound.extend (hsound : Sound r h) (he : Extends r r' h h')
    (hvalues : ∀ v, h'.Holds v → h.Holds v ∨ v.IsPlain r' h')
    (hfunctions : ∀ f : FunctionId, f.index < h'.functions.size → f.index < h.functions.size ∨ IsClosed r' h' f)
    (hclasses : ∀ c : ClassId, c.index < h'.classes.size → c.index < h.classes.size ∨ IsTabled r' h' c)
    (hbound : ∀ b : BoundMethodId, b.index < h'.boundMethods.size →
      b.index < h.boundMethods.size ∧ h'.boundMethod b = h.boundMethod b ∨
        ∃ c, IsMethod r' h' c (h'.boundMethod b).method) : Sound r' h' := by
  refine ⟨he.nested', fun v hv => ?_, fun f hf => ?_, fun c hc => ?_, fun b hb => ?_⟩
  · rcases hvalues v hv with hold | hnew
    · exact (hsound.values v hold).extend he
    · exact hnew
  · rcases hfunctions f hf with hold | hnew
    · exact (hsound.functions f hold).extend hold he
    · exact hnew
  · rcases hclasses c hc with hold | hnew
    · exact (hsound.classes c hold).extend hold he
    · exact hnew
  · rcases hbound b hb with ⟨hold, hmethod⟩ | hnew
    · obtain ⟨c, hc⟩ := hsound.boundMethods b hold
      exact ⟨c, hmethod ▸ hc.extend he⟩
    · exact hnew

end Heap

end Lox
