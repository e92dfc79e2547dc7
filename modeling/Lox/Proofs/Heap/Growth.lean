import Lox.Proofs.Heap.Ancestors
import Lox.Proofs.Heap.Declarations
import Lox.Machine.Step

/-!
# Growth of a sound heap

Every operation of the machine on a sound heap makes a sound extension of it, provided that values which are bound or
stored are plain, that names which programs bind are neither `this` nor `super`, and that new functions and classes are
put on record as what they are. Each operation has one lemma.
-/

namespace Lox.Heap

variable {r r' : Declarations} {h h' : Heap} {s p : ScopeId} {home : Home} {v w : Value} {name : String}

/-! ## What is held -/

/-- What is pushed behind an array, and what was there before. -/
theorem getD_push {α : Type} {xs : Array α} {x d : α} {i : Nat} :
    (xs.push x)[i]?.getD d = if i = xs.size then x else xs[i]?.getD d := by
  rw [Array.getElem?_push]
  split <;> rfl

/-- A definition adds to what is held nothing but what it binds. -/
theorem Holds.of_define (hw : (h.define s name v).Holds w) : h.Holds w ∨ w = v := by
  cases hw with
  | bound hw =>
    rw [own_define] at hw
    split at hw
    · exact .inr (Option.some.inj hw).symm
    · exact .inl (.bound hw)
  | element hw => exact .inl (.element hw)
  | field hw => exact .inl (.field hw)

/-- A new scope holds nothing. -/
theorem Holds.of_newScope {o : Option ScopeId} (hw : (h.newScope o).2.Holds w) : h.Holds w := by
  cases hw with
  | bound hw =>
    rw [own_newScope] at hw
    exact .bound hw
  | element hw => exact .element hw
  | field hw => exact .field hw

/-- A new sequence holds its elements. -/
theorem Holds.of_newSequence {elements : Array Value} (hw : (h.newSequence elements).2.Holds w) :
    h.Holds w ∨ w ∈ elements := by
  cases hw with
  | bound hw => exact .inl (.bound hw)
  | field hw => exact .inl (.field hw)
  | @element id hw =>
    change w ∈ (h.sequences.push elements)[id.index]?.getD #[] at hw
    rw [getD_push] at hw
    split at hw
    · exact .inr hw
    · exact .inl (.element hw)

/-- A sequence whose element is replaced holds the new element besides the old ones. -/
theorem Holds.of_setElement {id : SequenceId} {slot : Nat} (hw : (h.setElement id slot v).Holds w) :
    h.Holds w ∨ w = v := by
  cases hw with
  | bound hw => exact .inl (.bound hw)
  | field hw => exact .inl (.field hw)
  | @element t hw =>
    change w ∈ (h.sequences.modify id.index fun xs => xs.setIfInBounds slot v)[t.index]?.getD #[] at hw
    rw [Array.getElem?_modify] at hw
    split at hw
    · cases hxs : h.sequences[t.index]? with
      | none =>
        rw [hxs] at hw
        exact absurd hw (by simp)
      | some xs =>
        rw [hxs] at hw
        rcases Array.mem_or_eq_of_mem_setIfInBounds hw with hold | hnew
        · have helement : w ∈ h.sequence t := by
            rw [sequence, hxs]
            exact hold
          exact .inl (.element helement)
        · exact .inr hnew
    · exact .inl (.element hw)

/-- A new instance has no fields. -/
theorem Holds.of_newInstance {c : ClassId} (hw : (h.newInstance c).2.Holds w) : h.Holds w := by
  cases hw with
  | bound hw => exact .bound hw
  | element hw => exact .element hw
  | @field o name hw =>
    change ((h.instances.push { ofClass := c })[o.index]?.getD default).fields.find? name = some w at hw
    rw [getD_push] at hw
    split at hw
    · exact nomatch hw
    · exact .field hw

/-- An instance in which a field is stored holds the value of the field besides the old ones. -/
theorem Holds.of_setField {o : InstanceId} (hw : (h.setField o name v).Holds w) : h.Holds w ∨ w = v := by
  cases hw with
  | bound hw => exact .inl (.bound hw)
  | element hw => exact .inl (.element hw)
  | @field t x hw =>
    change ((h.instances.modify o.index fun i => { i with fields := i.fields.insert name v })[t.index]?.getD
      default).fields.find? x = some w at hw
    rw [Array.getElem?_modify] at hw
    split at hw
    · cases hi : h.instances[t.index]? with
      | none =>
        rw [hi] at hw
        exact nomatch hw
      | some i =>
        rw [hi] at hw
        change (i.fields.insert name v).find? x = some w at hw
        rw [Bindings.find?_insert] at hw
        split at hw
        · exact .inr (Option.some.inj hw).symm
        · have hold : (h.instanceOf t).fields.find? x = some w := by
            rw [instanceOf, hi]
            exact hw
          exact .inl (.field hold)
    · exact .inl (.field hw)

/-! ## Scopes -/

/-- An operation on scopes alone leaves the heap sound if what it binds is plain. -/
theorem Sound.of_scopes (hsound : Sound r h) {scopes : Array Scope}
    (he : Extends r r h { h with scopes })
    (hvalues : ∀ v, Holds { h with scopes } v → h.Holds v ∨ v.IsPlain r h) : Sound r { h with scopes } :=
  hsound.extend he (fun v hv => (hvalues v hv).imp_right (·.extend he)) (fun _ hf => .inl hf) (fun _ hc => .inl hc)
    fun _ hb => .inl ⟨hb, rfl⟩

/-- A name that may be bound is bound to a plain value. -/
theorem Sound.define (hsound : Sound r h) (hname : Bindable name) (hv : v.IsPlain r h) :
    Sound r (h.define s name v) ∧ Extends r r h (h.define s name v) := by
  -- Only the one name is touched, and it is not one that methods rely on.
  have he : Extends r r h (h.define s name v) := by
    refine ⟨hsound.nested, hsound.nested.define, fun t ht => ⟨by simpa using ht, parent_define, fun x hx => ?_⟩,
      fun f hf => ⟨hf, rfl, rfl⟩, fun c hc => ⟨hc, rfl, rfl⟩, Nat.le_refl _⟩
    rw [own_define, if_neg]
    rintro ⟨-, rfl, -⟩
    exact hx hname
  exact ⟨hsound.of_scopes he fun w hw => hw.of_define.imp_right fun (hnew : w = v) => hnew ▸ hv, he⟩

/-- A scope is added inside one that is there. -/
theorem Sound.newScope (hsound : Sound r h) (hp : p.index < h.scopes.size) :
    Sound r (h.newScope (some p)).2 ∧ Extends r r h (h.newScope (some p)).2 := by
  have hnested : (h.newScope (some p)).2.Nested := hsound.nested.newScope fun q hq => Option.some.inj hq ▸ hp
  have he : Extends r r h (h.newScope (some p)).2 := by
    refine ⟨hsound.nested, hnested, fun t ht => ⟨?_, ?_, fun x _ => own_newScope⟩,
      fun f hf => ⟨hf, rfl, rfl⟩, fun c hc => ⟨hc, rfl, rfl⟩, Nat.le_refl _⟩
    · rw [size_scopes_newScope]
      omega
    · rw [scope_newScope_of_lt ht]
  exact ⟨hsound.of_scopes he fun w hw => .inl hw.of_newScope, he⟩

/-- A scope is added inside one that is there, and binds a name of any kind. -/
theorem Sound.newScope_define (hsound : Sound r h) (name : String) (hp : p.index < h.scopes.size) (hv : v.IsPlain r h) :
    Sound r ((h.newScope (some p)).2.define ⟨h.scopes.size⟩ name v) ∧
      Extends r r h ((h.newScope (some p)).2.define ⟨h.scopes.size⟩ name v) := by
  obtain ⟨hnew, henew⟩ := hsound.newScope hp
  -- The name may be any, since the scope in which it is bound was not there before.
  have he : Extends r r h ((h.newScope (some p)).2.define ⟨h.scopes.size⟩ name v) := by
    refine ⟨hsound.nested, hnew.nested.define, fun t ht => ?_, fun f hf => ⟨hf, rfl, rfl⟩, fun c hc => ⟨hc, rfl, rfl⟩,
      Nat.le_refl _⟩
    obtain ⟨hthere, hparent, hown⟩ := henew.scopes t ht
    refine ⟨by simpa using hthere, parent_define.trans hparent, fun x hx => ?_⟩
    rw [own_define, if_neg, hown x hx]
    rintro ⟨rfl, -, -⟩
    exact Nat.lt_irrefl _ ht
  refine ⟨hsound.of_scopes he fun w hw => ?_, he⟩
  rcases Holds.of_define hw with hold | rfl
  · exact .inl hold.of_newScope
  · exact .inr hv

/-- A new scope sees what the scope around it sees. -/
theorem Sees.newScope (hsees : Sees r h p home) (hnested : h.Nested) :
    Sees r (h.newScope (some p)).2 ⟨h.scopes.size⟩ home := by
  obtain ⟨hp, hknown, hsuper, hthis⟩ := hsees
  refine ⟨by simp, hknown, ?_, ?_⟩
  · rw [lookup?_newScope_self hnested hp, hsuper]
  · rw [lookup?_newScope_self hnested hp, hthis]

/-- In a new scope inside that of a method, in which `this` is bound to an instance, code stands in the class of the
method and runs on the instance. -/
theorem sees_receiver {c : ClassId} {o : InstanceId} (hnested : h.Nested) (hp : p.index < h.scopes.size)
    (hc : c.index < h.classes.size) (hsuper : h.own p superName = some (r.parent c)) :
    Sees r ((h.newScope (some p)).2.define ⟨h.scopes.size⟩ thisName (.instanceObject o)) ⟨h.scopes.size⟩
      (some (c, o)) := by
  have hnew : (h.newScope (some p)).2.Nested := hnested.newScope fun q hq => Option.some.inj hq ▸ hp
  refine ⟨by simp, fun x hx => Option.some.inj hx ▸ hc, ?_, ?_⟩
  · rw [lookup?_define hnew (by decide), lookup?_newScope_self hnested hp, lookup?_eq hnested, hsuper]
    rfl
  · exact lookup?_define_self hnew (by simp)

/-! ## Sequences, instances and bound methods -/

/-- What is neither a scope nor a function nor a class leaves the heap sound if values in it are plain and bound methods
are methods. -/
theorem Sound.of_eq (hsound : Sound r h) (sequences : Array (Array Value)) (instances : Array Instance)
    (boundMethods : Array BoundMethod) (hle : h.boundMethods.size ≤ boundMethods.size)
    (hvalues : ∀ v, Holds { h with sequences, instances, boundMethods } v → h.Holds v ∨ v.IsPlain r h)
    (hbound : ∀ b : BoundMethodId, b.index < boundMethods.size →
      b.index < h.boundMethods.size ∧ boundMethod { h with sequences, instances, boundMethods } b = h.boundMethod b ∨
        ∃ c, IsMethod r h c (boundMethod { h with sequences, instances, boundMethods } b).method) :
    Sound r { h with sequences, instances, boundMethods } ∧
      Extends r r h { h with sequences, instances, boundMethods } := by
  have he : Extends r r h { h with sequences, instances, boundMethods } := .of_eq hsound.nested rfl rfl rfl hle
  refine ⟨hsound.extend he (fun v hv => (hvalues v hv).imp_right (·.extend he)) (fun f hf => .inl hf)
    (fun c hc => .inl hc) fun b hb => ?_, he⟩
  rcases hbound b hb with hold | ⟨c, hc⟩
  · exact .inl hold
  · exact .inr ⟨c, hc.extend he⟩

/-- A sequence of plain values is added. -/
theorem Sound.newSequence (hsound : Sound r h) {elements : Array Value} (hv : ∀ v ∈ elements, v.IsPlain r h) :
    Sound r (h.newSequence elements).2 ∧ Extends r r h (h.newSequence elements).2 :=
  hsound.of_eq _ h.instances _ (Nat.le_refl _) (fun w hw => (Holds.of_newSequence hw).imp_right (hv w))
    fun _ hb => .inl ⟨hb, rfl⟩

/-- An element of a sequence is replaced by a plain value. -/
theorem Sound.setElement (hsound : Sound r h) {id : SequenceId} {slot : Nat} (hv : v.IsPlain r h) :
    Sound r (h.setElement id slot v) ∧ Extends r r h (h.setElement id slot v) := by
  refine hsound.of_eq _ h.instances _ (Nat.le_refl _) (fun w hw => ?_) fun _ hb => .inl ⟨hb, rfl⟩
  exact (Holds.of_setElement hw).imp_right fun (hnew : w = v) => hnew ▸ hv

/-- An instance is added. -/
theorem Sound.newInstance (hsound : Sound r h) (c : ClassId) :
    Sound r (h.newInstance c).2 ∧ Extends r r h (h.newInstance c).2 :=
  hsound.of_eq h.sequences _ _ (Nat.le_refl _) (fun _ hw => .inl (Holds.of_newInstance hw)) fun _ hb => .inl ⟨hb, rfl⟩

/-- A plain value is stored in a field. -/
theorem Sound.setField (hsound : Sound r h) {o : InstanceId} (hv : v.IsPlain r h) :
    Sound r (h.setField o name v) ∧ Extends r r h (h.setField o name v) := by
  refine hsound.of_eq h.sequences _ _ (Nat.le_refl _) (fun w hw => ?_) fun _ hb => .inl ⟨hb, rfl⟩
  exact (Holds.of_setField hw).imp_right fun (hnew : w = v) => hnew ▸ hv

/-- A method is bound to an instance. -/
theorem Sound.newBoundMethod (hsound : Sound r h) {o : InstanceId} {c : ClassId} {f : FunctionId}
    (hf : IsMethod r h c f) :
    Sound r (h.newBoundMethod o f).2 ∧ Extends r r h (h.newBoundMethod o f).2 := by
  refine hsound.of_eq h.sequences h.instances _ (by simp)
    (fun w hw => .inl (hw.of_eq rfl rfl rfl)) fun b hb => ?_
  rw [boundMethod, getD_push]
  split
  · exact .inr ⟨c, hf⟩
  · rw [Array.size_push] at hb
    exact .inl ⟨by omega, rfl⟩

/-! ## Functions and classes -/

end Lox.Heap

namespace Lox

variable {r : Declarations} {h : Heap} {s : ScopeId} {home : Home} {name : String}

/-- What some pairs bind a name to stands among them. -/
theorem Bindings.mem_of_find?_ofList {α : Type} {pairs : List (String × α)} {x : α}
    (hx : (Bindings.ofList pairs).find? name = some x) : (name, x) ∈ pairs := by
  -- Over any bindings to begin with, so that the induction goes through.
  have hfold : ∀ (pairs : List (String × α)) (b : Bindings α),
      (pairs.foldl (fun b p => b.insert p.1 p.2) b).find? name = some x →
        (name, x) ∈ pairs ∨ b.find? name = some x := by
    intro pairs
    induction pairs with
    | nil => exact fun b hb => .inr hb
    | cons pair pairs ih =>
      intro b hb
      rcases ih _ hb with hmem | hfirst
      · exact .inl (List.mem_cons_of_mem _ hmem)
      · rw [Bindings.find?_insert] at hfirst
        split at hfirst
        · rename_i hname
          obtain rfl := Option.some.inj hfirst
          exact .inl (hname ▸ List.mem_cons_self)
        · exact .inr hfirst
  rcases hfold pairs .empty hx with hmem | hempty
  · exact hmem
  · exact nomatch hempty

/-- The record when code that stands somewhere has declared a function. -/
def Declarations.withFunction (r : Declarations) (h : Heap) (home : Home) : Declarations :=
  { r with origin := fun f => if f.index < h.functions.size then r.origin f else .code home }

/-- The record when a class has been declared, its parent evaluated to a value, and its methods with it. -/
def Declarations.withClass (r : Declarations) (h : Heap) (parent : Value) : Declarations where
  origin := fun f => if f.index < h.functions.size then r.origin f else .method ⟨h.classes.size⟩
  parent := fun c => if c.index < h.classes.size then r.parent c else parent

namespace Heap

open Config (declareMethods)

/-- A function is added that code declares in its scope. -/
theorem Sound.newFunction (hsound : Sound r h) {d : FunDecl} (hd : d.BindsOnly Bindable) (hsees : Sees r h s home) :
    Sound (r.withFunction h home) (h.newFunction ⟨d, s⟩).2 ∧
      Extends r (r.withFunction h home) h (h.newFunction ⟨d, s⟩).2 := by
  have hfunction (f : FunctionId) : (h.newFunction ⟨d, s⟩).2.function f =
      if f.index = h.functions.size then ⟨d, s⟩ else h.function f := getD_push
  have hsize : (h.newFunction ⟨d, s⟩).2.functions.size = h.functions.size + 1 := Array.size_push _
  have he : Extends r (r.withFunction h home) h (h.newFunction ⟨d, s⟩).2 := by
    refine ⟨hsound.nested, hsound.nested, fun t ht => ⟨ht, rfl, fun _ _ => rfl⟩, fun f hf => ⟨by omega, ?_, if_pos hf⟩,
      fun c hc => ⟨hc, rfl, rfl⟩, Nat.le_refl _⟩
    rw [hfunction, if_neg (Nat.ne_of_lt hf)]
  refine ⟨hsound.extend he (fun v hv => .inl (hv.of_eq rfl rfl rfl)) (fun f hf => ?_) (fun c hc => .inl hc)
    fun b hb => .inl ⟨hb, rfl⟩, he⟩
  · rcases Nat.lt_or_ge f.index h.functions.size with hold | hnew
    · exact .inl hold
    · -- The new function has the scope in which it is declared for its own, and so it sees what this scope sees.
      have hlast : f.index = h.functions.size := by omega
      have horigin : (r.withFunction h home).origin f = .code home := if_neg (by omega)
      have hclosure : (h.newFunction ⟨d, s⟩).2.function f = ⟨d, s⟩ := by rw [hfunction, if_pos hlast]
      refine .inr ⟨?_, ?_, fun home' hhome => ?_, fun c hc => ?_⟩
      · rw [hclosure]
        exact hsees.there
      · rw [hclosure]
        exact hd
      · rw [horigin] at hhome
        obtain rfl := Origin.code.inj hhome
        rw [hclosure]
        exact hsees.extend he
      · rw [horigin] at hc
        exact nomatch hc

/-- A heap with a scope more, inside another, that binds `super` to a parent. -/
def withSuper (h : Heap) (p : ScopeId) (parent : Option ClassId) : Heap :=
  (h.newScope (some p)).2.define ⟨h.scopes.size⟩ superName (parentValue parent)

/-- The functions for the methods of a class. -/
def methodClosures (s : ScopeId) (ds : List FunDecl) : Array Closure :=
  (ds.map fun d => (⟨d, s⟩ : Closure)).toArray

/-- A heap with some functions and a class more. -/
def addClass (h : Heap) (closures : Array Closure) (cls : Class) : Heap :=
  { h with functions := h.functions ++ closures, classes := h.classes.push cls }

/-- The methods of a class are added behind the functions that are there. -/
theorem declareMethods_snd (h : Heap) (s : ScopeId) (ds : List FunDecl) :
    (declareMethods h s ds).2 = { h with functions := h.functions ++ methodClosures s ds } := by
  induction ds generalizing h with
  | nil => simp [declareMethods, methodClosures]
  | cons d ds ih =>
    rw [declareMethods]
    simp [ih, Heap.newFunction, methodClosures]

/-- A class is added with its methods. -/
theorem newClass_declareMethods (h : Heap) (s : ScopeId) (ds : List FunDecl) (cls : Class) :
    (declareMethods h s ds).2.newClass cls = (⟨h.classes.size⟩, h.addClass (methodClosures s ds) cls) := by
  rw [declareMethods_snd]
  rfl

/-- The methods of a class are among the functions that are added. -/
theorem index_of_mem_declareMethods {f : FunctionId} {ds : List FunDecl}
    (hf : (name, f) ∈ (declareMethods h s ds).1) :
    h.functions.size ≤ f.index ∧ f.index < h.functions.size + ds.length := by
  induction ds generalizing h with
  | nil => exact nomatch hf
  | cons d ds ih =>
    rw [declareMethods] at hf
    rcases List.mem_cons.1 hf with hfirst | hother
    · obtain ⟨-, rfl⟩ := Prod.mk.inj hfirst
      simp [Heap.newFunction]
    · have hindex := ih hother
      simp only [Heap.newFunction, Array.size_push] at hindex
      simp only [List.length_cons]
      omega

section

variable {closures : Array Closure} {cls : Class} {parent : Value}

/-- The class that is added, and those that were there. -/
theorem classOf_addClass (c : ClassId) :
    (h.addClass closures cls).classOf c = if c.index = h.classes.size then cls else h.classOf c :=
  getD_push

/-- The functions that were there stay. -/
theorem function_addClass_of_lt {f : FunctionId} (hf : f.index < h.functions.size) :
    (h.addClass closures cls).function f = h.function f := by
  show (h.functions ++ closures)[f.index]?.getD default = _
  rw [Array.getElem?_append_left hf]
  rfl

/-- The other functions are those that are added. -/
theorem function_addClass_of_ge {f : FunctionId} (hge : h.functions.size ≤ f.index)
    (hlt : f.index < h.functions.size + closures.size) : (h.addClass closures cls).function f ∈ closures := by
  have hslot : f.index - h.functions.size < closures.size := by omega
  show (h.functions ++ closures)[f.index]?.getD default ∈ closures
  rw [Array.getElem?_append_right hge, Array.getElem?_eq_getElem hslot]
  exact Array.getElem_mem hslot

/-- Functions and a class more, put on record as methods and their class, are an extension. -/
theorem Extends.addClass (hnested : h.Nested) :
    Extends r (r.withClass h parent) h (h.addClass closures cls) := by
  refine ⟨hnested, hnested, fun t ht => ⟨ht, rfl, fun _ _ => rfl⟩, fun f hf => ⟨?_, ?_, if_pos hf⟩,
    fun c hc => ⟨?_, ?_, if_pos hc⟩, Nat.le_refl _⟩
  · show f.index < (h.functions ++ closures).size
    rw [Array.size_append]
    omega
  · exact function_addClass_of_lt hf
  · show c.index < (h.classes.push cls).size
    rw [Array.size_push]
    omega
  · rw [classOf_addClass, if_neg (Nat.ne_of_lt hc)]

end

/-- A class is added with its methods, all in one scope in which `super` is bound to the parent. -/
theorem Sound.addClass (hsound : Sound r h) (name : String) {parent : Option ClassId} {ds : List FunDecl}
    (hds : FunDecl.AllBindOnly Bindable ds) (hs : s.index < h.scopes.size)
    (hsuper : h.own s superName = some (parentValue parent)) {cls : Class}
    (hcls : cls = ⟨name, parent, .ofList (declareMethods h s ds).1⟩) :
    Sound (r.withClass h (parentValue parent)) (h.addClass (methodClosures s ds) cls) ∧
      Extends r (r.withClass h (parentValue parent)) h (h.addClass (methodClosures s ds) cls) := by
  have he : Extends r (r.withClass h (parentValue parent)) h (h.addClass (methodClosures s ds) cls) :=
    .addClass hsound.nested
  have hlength : (methodClosures s ds).size = ds.length := by simp [methodClosures]
  have hfunctions : (h.addClass (methodClosures s ds) cls).functions.size = h.functions.size + ds.length := by
    rw [← hlength]
    exact Array.size_append
  have hclasses : (h.addClass (methodClosures s ds) cls).classes.size = h.classes.size + 1 := Array.size_push _
  have horigin (f : FunctionId) (hf : h.functions.size ≤ f.index) :
      (r.withClass h (parentValue parent)).origin f = .method ⟨h.classes.size⟩ := if_neg (Nat.not_lt.2 hf)
  have hparent : (r.withClass h (parentValue parent)).parent ⟨h.classes.size⟩ = parentValue parent :=
    if_neg (Nat.lt_irrefl _)
  refine ⟨hsound.extend he (fun v hv => .inl (hv.of_eq rfl rfl rfl)) (fun f hf => ?_) (fun c hc => ?_)
    fun b hb => .inl ⟨hb, rfl⟩, he⟩
  · rcases Nat.lt_or_ge f.index h.functions.size with hold | hnew
    · exact .inl hold
    · -- Whatever function is new is a method of the class, and closes over its scope.
      obtain ⟨d, hd, hclosure⟩ : ∃ d ∈ ds, (h.addClass (methodClosures s ds) cls).function f = ⟨d, s⟩ := by
        have hmem : (h.addClass (methodClosures s ds) cls).function f ∈ methodClosures s ds :=
          function_addClass_of_ge hnew (by omega)
        obtain ⟨d, hd, hclosure⟩ := List.mem_map.1 (List.mem_toArray.1 hmem)
        exact ⟨d, hd, hclosure.symm⟩
      refine .inr ⟨?_, ?_, fun home hhome => ?_, fun c hc => ?_⟩
      · rw [hclosure]
        exact hs
      · rw [hclosure]
        exact FunDecl.bindsOnly_of_mem hds hd
      · rw [horigin f hnew] at hhome
        exact nomatch hhome
      · rw [horigin f hnew] at hc
        obtain rfl := Origin.method.inj hc
        refine ⟨by rw [hclasses]; exact Nat.lt_succ_self _, ?_⟩
        rw [hclosure, hparent]
        exact hsuper
  · rcases Nat.lt_or_ge c.index h.classes.size with hold | hnew
    · exact .inl hold
    · -- The one new class has for methods what was added with it.
      obtain rfl : c = ⟨h.classes.size⟩ := by
        obtain ⟨index⟩ := c
        have hindex : index = h.classes.size := by
          change h.classes.size ≤ index at hnew
          change index < _ at hc
          omega
        rw [hindex]
      have hclass : (h.addClass (methodClosures s ds) cls).classOf ⟨h.classes.size⟩ = cls := by
        rw [classOf_addClass, if_pos rfl]
      refine .inr ⟨fun x f hf => ?_, ?_⟩
      · rw [hclass, hcls] at hf
        obtain ⟨hge, hlt⟩ := index_of_mem_declareMethods (Bindings.mem_of_find?_ofList hf)
        exact ⟨by omega, horigin f hge⟩
      · rw [hclass, hparent, hcls]

/-- What is found in a class or its ancestors is a method of one of them. -/
theorem Sound.isMethod_of_findMethod? (hsound : Sound r h) {c : ClassId} {f : FunctionId}
    (hf : h.findMethod? c name = some f) : ∃ c', IsMethod r h c' f := by
  obtain ⟨k, -, hk⟩ := exists_inherits_of_findMethod? hf
  exact ⟨k, (hsound.classes k (index_lt_of_find? hk)).methods name f hk⟩

end Heap

end Lox
