import Lox.Proofs.Grammar.Mentions
import Lox.Proofs.Heap.Contraction

/-!
# Heaps that agree on some names

Two heaps agree on the names with a property (`Agree`) if they are the same but for what scopes bind other names to, and
if the code of functions mentions none of those. What the scopes of either heap bind the other names to is fixed. Names
with the property then mean the same in both, and every operation of the machine that binds such names leads from
heaps that agree to heaps that agree.
-/

namespace Lox.Heap

variable {p : String → Prop} {others others' : ScopeId → String → Option Value} {h h' h₁ h₁' : Heap}
  {scopes : Array Scope} {s : ScopeId} {name : String}

/-! ## What does not depend on scopes -/

/-- A heap with other scopes. -/
def withScopes (h : Heap) (scopes : Array Scope) : Heap :=
  { h with scopes }

/-- The scopes of functions keep their names. -/
theorem withScopes_eq_onto (h : Heap) (scopes : Array Scope) : h.withScopes scopes = h.onto id scopes :=
  (onto_id h scopes).symm

/-- Values have the same text. -/
@[simp] theorem text_withScopes (v : Value) : (h.withScopes scopes).text v = h.text v := by
  rw [withScopes_eq_onto, text_onto]

/-- Operators have the same results. -/
@[simp] theorem binary_withScopes (op : BinaryOp) (left right : Value) :
    (h.withScopes scopes).binary op left right = h.binary op left right := by
  rw [withScopes_eq_onto, binary_onto]

/-- Positions denote the same slots. -/
@[simp] theorem slot_withScopes (id : SequenceId) (position : Value) :
    (h.withScopes scopes).slot id position = h.slot id position := by
  rw [withScopes_eq_onto, slot_onto]

/-- The same values can be called, and with as many arguments. -/
@[simp] theorem callable?_withScopes (v : Value) : (h.withScopes scopes).callable? v = h.callable? v := by
  rw [withScopes_eq_onto, callable?_onto]

/-- Classes have the same methods. -/
@[simp] theorem findMethod?_withScopes (c : ClassId) :
    (h.withScopes scopes).findMethod? c name = h.findMethod? c name := by
  rw [withScopes_eq_onto, findMethod?_onto]

/-- Instances have the same properties. -/
@[simp] theorem property_withScopes (o : InstanceId) :
    (h.withScopes scopes).property o name = h.property o name := by
  rw [withScopes_eq_onto, property_onto]

/-- Builtins answer the same. -/
@[simp] theorem run_withScopes (builtin : Builtin) (time : Float) (arguments : List Value) :
    builtin.run time arguments (h.withScopes scopes) = builtin.run time arguments h := by
  rw [withScopes_eq_onto, run_onto]

/-! ## Agreement -/

/-- Two heaps agree on the names with a property: all objects but scopes are the same, scopes stand in the same scopes,
and bind these names alike. What they bind other names to is given, and no function mentions those. -/
structure Agree (p : String → Prop) (others others' : ScopeId → String → Option Value) (h h' : Heap) : Prop where
  objects : h' = h.withScopes h'.scopes
  size : h'.scopes.size = h.scopes.size
  parent : ∀ s, (h'.scope s).parent = (h.scope s).parent
  shared : ∀ s name, p name → h'.own s name = h.own s name
  fixed : ∀ s name, ¬p name → h.own s name = others s name
  fixed' : ∀ s name, ¬p name → h'.own s name = others' s name
  code : ∀ f ∈ h.functions, f.declaration.MentionsOnly p

/-- Heaps agree if they have the scopes of heaps that agree, and otherwise the same objects. -/
theorem Agree.of_scopes (ha : Agree p others others' h h') (hscopes : h₁.scopes = h.scopes)
    (hscopes' : h₁'.scopes = h'.scopes) (hobjects : h₁' = h₁.withScopes h₁'.scopes)
    (hcode : ∀ f ∈ h₁.functions, f.declaration.MentionsOnly p) : Agree p others others' h₁ h₁' := by
  have hscope (s : ScopeId) : h₁.scope s = h.scope s := by rw [scope, scope, hscopes]
  have hscope' (s : ScopeId) : h₁'.scope s = h'.scope s := by rw [scope, scope, hscopes']
  have hown (s : ScopeId) (name : String) : h₁.own s name = h.own s name := by rw [own, own, hscope]
  have hown' (s : ScopeId) (name : String) : h₁'.own s name = h'.own s name := by rw [own, own, hscope']
  obtain ⟨-, hsize, hparent, hshared, hfixed, hfixed', -⟩ := ha
  refine ⟨hobjects, by rwa [hscopes, hscopes'], fun s => ?_, fun s name hname => ?_, fun s name hname => ?_,
    fun s name hname => ?_, hcode⟩
  · rw [hscope, hscope']
    exact hparent s
  · rw [hown, hown']
    exact hshared s name hname
  · rw [hown]
    exact hfixed s name hname
  · rw [hown']
    exact hfixed' s name hname

/-- The code of a function mentions only names with the property, and so does that of a function that is not there. -/
theorem Agree.function (ha : Agree p others others' h h') (f : FunctionId) :
    (h.function f).declaration.MentionsOnly p := by
  unfold Heap.function
  cases hf : h.functions[f.index]? with
  | none => exact ⟨List.forall_mem_nil _, trivial⟩
  | some closure => exact ha.code closure (Array.mem_of_getElem? hf)

/-- A name with the property is found in the same scope, where it means the same. -/
theorem Agree.locate? (ha : Agree p others others' h h') (hname : p name) (s : ScopeId) :
    h'.locate? s name = h.locate? s name := by
  -- The walks go through the same scopes, so that no nesting is needed: they are bounded alike.
  have hwalk (n : Nat) (s : ScopeId) : h'.locateWithin name n s = h.locateWithin name n s := by
    induction n generalizing s with
    | zero => rfl
    | succ n ih =>
      have hown : (h'.scope s).bindings.find? name = (h.scope s).bindings.find? name := ha.shared s name hname
      simp only [locateWithin, hown, ha.parent s, ih]
  exact hwalk _ s

/-- A name with the property means the same. -/
theorem Agree.lookup? (ha : Agree p others others' h h') (hname : p name) (s : ScopeId) :
    h'.lookup? s name = h.lookup? s name := by
  rw [Heap.lookup?, Heap.lookup?, ha.locate? hname]

/-! ## Operations -/

/-- A name with the property is bound. -/
theorem Agree.define (ha : Agree p others others' h h') (hname : p name) (s : ScopeId) (v : Value) :
    Agree p others others' (h.define s name v) (h'.define s name v) := by
  -- Names without the property are not the one that is bound, so that they stay bound to what they were.
  have hother {other : String} (hnot : ¬p other) : name ≠ other := fun hsame => hnot (hsame ▸ hname)
  refine ⟨?_, ?_, fun t => ?_, fun t other hother => ?_, fun t other hnot => ?_, fun t other hnot => ?_, ha.code⟩
  · rw [ha.objects]
    rfl
  · rw [size_scopes_define, size_scopes_define, ha.size]
  · rw [parent_define, parent_define, ha.parent]
  · rw [own_define, own_define, ha.size, ha.shared t other hother]
  · rw [own_define, if_neg fun hall => hother hnot hall.2.1, ha.fixed t other hnot]
  · rw [own_define, if_neg fun hall => hother hnot hall.2.1, ha.fixed' t other hnot]

/-- A scope is added. -/
theorem Agree.newScope (ha : Agree p others others' h h') (parent : Option ScopeId) :
    Agree p others others' (h.newScope parent).2 (h'.newScope parent).2 := by
  refine ⟨?_, ?_, fun t => ?_, fun t other hother => ?_, fun t other hnot => ?_, fun t other hnot => ?_, ha.code⟩
  · rw [ha.objects]
    rfl
  · rw [size_scopes_newScope, size_scopes_newScope, ha.size]
  · rw [scope_newScope, scope_newScope, ha.size]
    split
    · rfl
    · exact ha.parent t
  · rw [own_newScope, own_newScope, ha.shared t other hother]
  · rw [own_newScope, ha.fixed t other hnot]
  · rw [own_newScope, ha.fixed' t other hnot]

/-- Parameters are bound whose names have the property. -/
theorem Agree.bindParameters : ∀ {names : List String} {values : List Value} {h h' : Heap},
    Agree p others others' h h' → (∀ name ∈ names, p name) →
    Agree p others others' (Config.bindParameters h s names values) (Config.bindParameters h' s names values)
  | [], _, _, _, ha, _ => ha
  | _ :: _, [], _, _, ha, _ => ha
  | name :: _, v :: _, _, _, ha, hnames =>
    (ha.define (hnames name List.mem_cons_self) s v).bindParameters fun other hother =>
      hnames other (List.mem_cons_of_mem _ hother)

/-- The scope of a class is added, with the parent of the class. -/
theorem Agree.withSuper (ha : Agree p others others' h h') (hsuper : p superName) (s : ScopeId)
    (parent : Option ClassId) : Agree p others others' (h.withSuper s parent) (h'.withSuper s parent) := by
  rw [Heap.withSuper, Heap.withSuper, ha.size]
  exact (ha.newScope (some s)).define hsuper ⟨h.scopes.size⟩ (parentValue parent)

/-- A function is added that mentions only names with the property. -/
theorem Agree.newFunction {f : Closure} (ha : Agree p others others' h h') (hf : f.declaration.MentionsOnly p) :
    Agree p others others' (h.newFunction f).2 (h'.newFunction f).2 := by
  refine ha.of_scopes rfl rfl ?_ fun g hg => ?_
  · rw [ha.objects]
    rfl
  · rcases Array.mem_push.1 hg with hg | rfl
    · exact ha.code g hg
    · exact hf

/-- A class is added whose methods mention only names with the property. -/
theorem Agree.addClass {ds : List FunDecl} (ha : Agree p others others' h h') (hds : FunDecl.AllMentionOnly p ds)
    (cls : Class) :
    Agree p others others' (h.addClass (methodClosures s ds) cls) (h'.addClass (methodClosures s ds) cls) := by
  refine ha.of_scopes rfl rfl ?_ fun g hg => ?_
  · rw [ha.objects]
    rfl
  · rcases Array.mem_append.1 hg with hg | hg
    · exact ha.code g hg
    · obtain ⟨d, hd, rfl⟩ := List.mem_map.1 (List.mem_toArray.1 hg)
      exact FunDecl.mentionsOnly_of_mem hds hd

end Lox.Heap
