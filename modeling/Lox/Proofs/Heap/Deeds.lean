import Lox.Proofs.Heap.Shape

/-!
# Deeds

What tells of the past in a heap: stores into sequences and instances that are there, and the declarations of classes
(`Deed`). Everything else that programs do to a heap adds objects and binds names, and touches no element, no field and
no class (`Gain`). So, from one heap to a later one (`Becomes`), the elements of a sequence and the fields of an
instance are what the deeds on that object have made of them (`Becomes.elements`, `Becomes.field`), and classes are what
they were declared to be (`Becomes.recalls`).
-/

namespace Lox

open Config (declareMethods)

/-- The declaration of a class: its name, its parent, and its methods in the order of its body, each with the function
that was made of it. -/
structure ClassRecord where
  name : String
  parent : Option ClassId
  methods : List (FunDecl × FunctionId)

/-- The last method of a name that the body of a class declares. -/
def ClassRecord.method? (record : ClassRecord) (name : String) : Option (FunDecl × FunctionId) :=
  record.methods.reverse.find? fun m => m.1.name == name

/-- A store into an object, or the declaration of a class. -/
inductive Deed where
  | element (id : SequenceId) (slot : Nat) (v : Value)
  | field (o : InstanceId) (name : String) (v : Value)
  | declaration (k : ClassId) (record : ClassRecord)

namespace Deed

/-- What a deed makes of the elements of a sequence. -/
def overwrite (id : SequenceId) : Deed → Array Value → Array Value
  | element t slot v, xs => if t = id then xs.setIfInBounds slot v else xs
  | _, xs => xs

/-- What a deed stores in a field of an instance. -/
def stored? (o : InstanceId) (name : String) : Deed → Option Value
  | field t x v => if t = o ∧ x = name then some v else none
  | _ => none

/-- What a deed declares a class to be. -/
def record? (k : ClassId) : Deed → Option ClassRecord
  | declaration c record => if c = k then some record else none
  | _ => none

/-- What has become of the elements of a sequence, by deeds of which the latest comes first. -/
def elements (past : List Deed) (id : SequenceId) (xs : Array Value) : Array Value :=
  past.foldr (overwrite id) xs

/-- What was last stored in a field of an instance. -/
def field? (past : List Deed) (o : InstanceId) (name : String) : Option Value :=
  past.findSome? (stored? o name)

/-- What a class was declared to be. -/
def class? (past : List Deed) (k : ClassId) : Option ClassRecord :=
  past.findSome? (record? k)

/-- Deeds on other objects leave the elements of a sequence as they are. -/
theorem elements_of_forall {past : List Deed} {id : SequenceId} (hpast : ∀ slot v, element id slot v ∉ past)
    (xs : Array Value) : elements past id xs = xs := by
  induction past with
  | nil => rfl
  | cons d past ih =>
    have hlast : overwrite id d (elements past id xs) = elements past id xs := by
      cases d with
      | element t slot v => exact if_neg fun (heq : t = id) => hpast slot v (heq ▸ List.mem_cons_self)
      | _ => rfl
    exact hlast.trans (ih fun slot v hmem => hpast slot v (List.mem_cons_of_mem _ hmem))

/-- Deeds on other slots leave a slot of a sequence as it is. -/
theorem getElem?_elements {past : List Deed} {id : SequenceId} {n : Nat} {xs : Array Value}
    (hpast : ∀ v, element id n v ∉ past) : (elements past id xs)[n]? = xs[n]? := by
  induction past with
  | nil => rfl
  | cons d past ih =>
    have hlast (ys : Array Value) : (overwrite id d ys)[n]? = ys[n]? := by
      cases d with
      | element t slot v =>
        simp only [overwrite]
        split
        · rename_i hid
          have hslot : slot ≠ n := fun heq => hpast v (hid ▸ heq ▸ List.mem_cons_self)
          exact Array.getElem?_setIfInBounds_ne hslot
        · rfl
      | _ => rfl
    exact (hlast _).trans (ih fun v hmem => hpast v (List.mem_cons_of_mem _ hmem))

/-- Deeds on other fields store nothing in a field. -/
theorem field?_eq_none_iff {past : List Deed} {o : InstanceId} {name : String} :
    field? past o name = none ↔ ∀ v, field o name v ∉ past := by
  rw [field?, List.findSome?_eq_none_iff]
  constructor
  · intro hpast v hmem
    have hnone := hpast _ hmem
    simp [stored?] at hnone
  · intro hpast d hmem
    cases d with
    | field t x v =>
      refine if_neg ?_
      rintro ⟨rfl, rfl⟩
      exact hpast v hmem
    | _ => rfl

/-- Of the deeds of two times, the later ones count first. -/
theorem field?_append (recent past : List Deed) (o : InstanceId) (name : String) :
    field? (recent ++ past) o name = (field? recent o name).or (field? past o name) :=
  List.findSome?_append

end Deed

namespace Heap

variable {h h' h'' : Heap} {past recent : List Deed} {d : Deed}

/-! ## Gains and deeds -/

/-- What may be done to a heap at once that is no deed. -/
inductive Gain (h : Heap) : Heap → Prop
  | define (s : ScopeId) (name : String) (v : Value) : Gain h (h.define s name v)
  | newScope (parent : Option ScopeId) : Gain h (h.newScope parent).2
  | newSequence (elements : Array Value) : Gain h (h.newSequence elements).2
  | newFunction (closure : Closure) : Gain h (h.newFunction closure).2
  | newInstance (c : ClassId) : Gain h (h.newInstance c).2
  | newBoundMethod (o : InstanceId) (f : FunctionId) : Gain h (h.newBoundMethod o f).2

/-- The methods that a class will have if it is declared now. -/
def methodsOf (h : Heap) (ds : List FunDecl) : List (FunDecl × FunctionId) :=
  (ds.zipIdx h.functions.size).map fun m => (m.1, ⟨m.2⟩)

/-- The declaration of a class in a heap. -/
def declaration (h : Heap) (name : String) (parent : Option ClassId) (ds : List FunDecl) : Deed :=
  .declaration ⟨h.classes.size⟩ ⟨name, parent, h.methodsOf ds⟩

/-- What a deed does to a heap. -/
inductive Does (h : Heap) : Deed → Heap → Prop
  | element (id : SequenceId) (slot : Nat) (v : Value) : Does h (.element id slot v) (h.setElement id slot v)
  | field (o : InstanceId) (name : String) (v : Value) : Does h (.field o name v) (h.setField o name v)
  | declaration (s : ScopeId) (name : String) (parent : Option ClassId) (ds : List FunDecl) :
    Does h (h.declaration name parent ds)
      (h.addClass (methodClosures s ds) ⟨name, parent, .ofList (declareMethods h s ds).1⟩)

/-- What a heap may become by deeds, of which the latest comes first, and other changes in between. -/
inductive Becomes (h : Heap) : List Deed → Heap → Prop
  | refl : Becomes h [] h
  | gain {past : List Deed} {h' h'' : Heap} (hbefore : Becomes h past h') (hgain : h'.Gain h'') : Becomes h past h''
  | deed {past : List Deed} {h' h'' : Heap} {d : Deed} (hbefore : Becomes h past h') (hdoes : h'.Does d h'') :
    Becomes h (d :: past) h''

/-- One gain. -/
theorem Gain.once (hgain : h.Gain h') : h.Becomes [] h' :=
  .gain .refl hgain

/-- One deed. -/
theorem Does.once (hdoes : h.Does d h') : h.Becomes [d] h' :=
  .deed .refl hdoes

/-- What a heap becomes may become something else by later deeds. -/
theorem Becomes.trans (hbefore : h.Becomes past h') (hafter : h'.Becomes recent h'') :
    h.Becomes (recent ++ past) h'' := by
  induction hafter with
  | refl => exact hbefore
  | gain _ hgain ih => exact ih.gain hgain
  | deed _ hdoes ih => exact ih.deed hdoes

/-- A gain is a change. -/
theorem Gain.change (hgain : h.Gain h') : h.Change h' := by
  cases hgain with
  | define s name v => exact .define s name v
  | newScope parent => exact .newScope parent
  | newSequence elements => exact .newSequence elements
  | newFunction closure => exact .newFunction closure
  | newInstance c => exact .newInstance c
  | newBoundMethod o f => exact .newBoundMethod o f

/-- The methods of a class are added by changes. -/
theorem declareMethods_changes (scope : ScopeId) : ∀ (ds : List FunDecl) (h : Heap),
    h.Changes (declareMethods h scope ds).2
  | [], h => .refl h
  | d :: ds, h =>
    (Change.newFunction ⟨d, scope⟩).once.trans (declareMethods_changes scope ds (h.newFunction ⟨d, scope⟩).2)

/-- A deed is a matter of changes. -/
theorem Does.changes (hdoes : h.Does d h') : h.Changes h' := by
  cases hdoes with
  | element id slot v => exact (Change.setElement id slot v).once
  | field o name v => exact (Change.setField o name v).once
  | declaration s name parent ds =>
    have hadded := newClass_declareMethods h s ds ⟨name, parent, .ofList (declareMethods h s ds).1⟩
    have hclass := (Change.newClass (h := (declareMethods h s ds).2)
      ⟨name, parent, .ofList (declareMethods h s ds).1⟩).once
    rw [hadded] at hclass
    exact (declareMethods_changes s ds h).trans hclass

/-- A heap becomes another by changes. -/
theorem Becomes.changes (hbecomes : h.Becomes past h') : h.Changes h' := by
  induction hbecomes with
  | refl => exact .refl h
  | gain _ hgain ih => exact ih.trans hgain.change.once
  | deed _ hdoes ih => exact ih.trans hdoes.changes

/-- All objects that are there keep their shape. -/
theorem Becomes.keepsShape (hbecomes : h.Becomes past h') : h.KeepsShape h' :=
  hbecomes.changes.keepsShape

/-! ## What gains leave as it is -/

/-- A gain leaves the sequences as they are. -/
theorem Gain.sequence (hgain : h.Gain h') {id : SequenceId} (hid : id.index < h.sequences.size) :
    h'.sequence id = h.sequence id := by
  cases hgain with
  | newSequence elements => exact getD_push.trans (if_neg (Nat.ne_of_lt hid))
  | _ => rfl

/-- A gain leaves all fields as they are. A new instance has none. -/
theorem Gain.fields (hgain : h.Gain h') (o : InstanceId) : (h'.instanceOf o).fields = (h.instanceOf o).fields := by
  cases hgain with
  | newInstance c =>
    have hpush : (h.newInstance c).2.instanceOf o =
        if o.index = h.instances.size then { ofClass := c } else h.instanceOf o := getD_push
    rw [hpush]
    split
    · rename_i hnew
      rw [instanceOf, hnew, Array.getElem?_eq_none (Nat.le_refl _)]
      rfl
    · rfl
  | _ => rfl

/-- A gain leaves the classes as they are. -/
theorem Gain.classes (hgain : h.Gain h') : h'.classes = h.classes := by
  cases hgain <;> rfl

/-! ## Elements -/

/-- A deed does to the elements of a sequence what it says. -/
theorem Does.elements (hdoes : h.Does d h') {id : SequenceId} (hid : id.index < h.sequences.size) :
    h'.sequence id = d.overwrite id (h.sequence id) := by
  cases hdoes with
  | element t slot v =>
    have hmodify : (h.setElement t slot v).sequence id =
        ((h.sequences.modify t.index fun xs => xs.setIfInBounds slot v)[id.index]?).getD #[] := rfl
    rw [hmodify, Array.getElem?_modify, Deed.overwrite]
    by_cases hsame : t = id
    · subst hsame
      rw [if_pos rfl, if_pos rfl, sequence, Array.getElem?_eq_getElem hid]
      rfl
    · have hindex : t.index ≠ id.index := fun heq => hsame (by cases t; cases id; exact congrArg _ heq)
      rw [if_neg hindex, if_neg hsame]
      rfl
  | _ => rfl

/-- The elements of a sequence are what the deeds on it have made of them. -/
theorem Becomes.elements (hbecomes : h.Becomes past h') {id : SequenceId} (hid : id.index < h.sequences.size) :
    id.index < h'.sequences.size ∧ h'.sequence id = Deed.elements past id (h.sequence id) := by
  refine ⟨Nat.lt_of_lt_of_le hid hbecomes.keepsShape.sequences.size_le, ?_⟩
  induction hbecomes with
  | refl => rfl
  | gain hbefore hgain ih =>
    rw [hgain.sequence (Nat.lt_of_lt_of_le hid hbefore.keepsShape.sequences.size_le), ih]
  | deed hbefore hdoes ih =>
    rw [hdoes.elements (Nat.lt_of_lt_of_le hid hbefore.keepsShape.sequences.size_le), ih]
    rfl

/-! ## Fields -/

/-- A deed stores in the fields of an instance what it says, if the instance is there, and nothing in the others. -/
theorem Does.field? (hdoes : h.Does d h') {o : InstanceId} (name : String)
    (ho : o.index < h.instances.size ∨ ∀ x v, d ≠ .field o x v) :
    (h'.instanceOf o).fields.find? name = (d.stored? o name).or ((h.instanceOf o).fields.find? name) := by
  cases hdoes with
  | field t x v =>
    have hmodify : (h.setField t x v).instanceOf o =
        ((h.instances.modify t.index fun i => { i with fields := i.fields.insert x v })[o.index]?).getD default := rfl
    rw [hmodify, Array.getElem?_modify]
    by_cases hsame : t = o
    · subst hsame
      have hthere : t.index < h.instances.size := ho.resolve_right fun hother => hother x v rfl
      rw [if_pos rfl, Array.getElem?_eq_getElem hthere, Option.map_some, Option.getD_some, Bindings.find?_insert,
        instanceOf, Array.getElem?_eq_getElem hthere, Option.getD_some, Deed.stored?]
      by_cases hname : x = name
      · rw [if_pos hname, if_pos ⟨rfl, hname⟩]
        rfl
      · rw [if_neg hname, if_neg fun heq => hname heq.2]
        rfl
    · have hindex : t.index ≠ o.index := fun heq => hsame (by cases t; cases o; exact congrArg _ heq)
      rw [if_neg hindex, Deed.stored?, if_neg fun heq => hsame heq.1]
      rfl
  | _ => rfl

/-- A field of an instance is what was last stored in it, if anything was since the instance was there. -/
theorem Becomes.field? (hbecomes : h.Becomes past h') {o : InstanceId} (name : String)
    (ho : o.index < h.instances.size ∨ ∀ x v, .field o x v ∉ past) :
    (h'.instanceOf o).fields.find? name = (Deed.field? past o name).or ((h.instanceOf o).fields.find? name) := by
  induction hbecomes with
  | refl => rfl
  | gain _ hgain ih => rw [hgain.fields, ih ho]
  | @deed past h₁ h₂ d hbefore hdoes ih =>
    have hothers := ho.imp_right fun hother x v hmem => hother x v (List.mem_cons_of_mem _ hmem)
    have hthis : o.index < h₁.instances.size ∨ ∀ x v, d ≠ .field o x v :=
      ho.imp (fun hthere => Nat.lt_of_lt_of_le hthere hbefore.keepsShape.instances.size_le)
        fun hother x v heq => hother x v (heq ▸ List.mem_cons_self)
    rw [hdoes.field? name hthis, ih hothers, Deed.field?, Deed.field?, List.findSome?_cons]
    cases d.stored? o name <;> rfl

/-! ## Classes -/

/-- A class is as it was declared: it has the name and the parent, under a name the last method that its body declares,
and the functions of its methods have the declarations of these. -/
structure IsDeclared (h : Heap) (k : ClassId) (record : ClassRecord) : Prop where
  there : k.index < h.classes.size
  name : (h.classOf k).name = record.name
  parent : (h.classOf k).parent = record.parent
  method : ∀ x, (h.classOf k).methods.find? x = (record.method? x).map Prod.snd
  functions : ∀ m ∈ record.methods, m.2.index < h.functions.size ∧ (h.function m.2).declaration = m.1

/-- The past tells of all classes, and nothing else of them. -/
def Recalls (past : List Deed) (h : Heap) : Prop :=
  ∀ k, (Deed.class? past k = none ∧ h.classes.size ≤ k.index) ∨
    ∃ record, Deed.class? past k = some record ∧ h.IsDeclared k record

/-- A class stays as it was declared. -/
theorem IsDeclared.keep {k : ClassId} {record : ClassRecord} (hk : h.IsDeclared k record) (hshape : h.KeepsShape h') :
    h'.IsDeclared k record := by
  obtain ⟨hthere, hclass⟩ : k.index < h'.classes.size ∧ h.classOf k = h'.classOf k := hshape.classes.getD hk.there _
  refine ⟨hthere, hclass ▸ hk.name, hclass ▸ hk.parent, hclass ▸ hk.method, fun m hm => ?_⟩
  obtain ⟨hm', hdeclaration⟩ := hk.functions m hm
  obtain ⟨hkept, hfunction⟩ : m.2.index < h'.functions.size ∧ h.function m.2 = h'.function m.2 :=
    hshape.functions.getD hm' _
  exact ⟨hkept, hfunction ▸ hdeclaration⟩

/-- Of several pairs for one name the last counts. -/
theorem find?_ofList {α : Type} (pairs : List (String × α)) (name : String) :
    (Bindings.ofList pairs).find? name = (pairs.reverse.find? fun p => p.1 == name).map Prod.snd := by
  -- Over any bindings to begin with, so that the induction goes through.
  have hfold : ∀ (pairs : List (String × α)) (b : Bindings α),
      (pairs.foldl (fun b p => b.insert p.1 p.2) b).find? name =
        ((pairs.reverse.find? fun p => p.1 == name).map Prod.snd).or (b.find? name) := by
    intro pairs
    induction pairs with
    | nil => exact fun b => rfl
    | cons pair pairs ih =>
      intro b
      rw [List.foldl_cons, ih, Bindings.find?_insert, List.reverse_cons, List.find?_append, List.find?_singleton]
      cases pairs.reverse.find? fun p => p.1 == name with
      | some p => rfl
      | none => by_cases hname : pair.1 = name <;> simp [hname]
  rw [Bindings.ofList, hfold, Bindings.find?_empty, Option.or_none]

/-- The table of a class is made of the names of its methods and the functions for them. -/
theorem declareMethods_fst (h : Heap) (s : ScopeId) (ds : List FunDecl) :
    (declareMethods h s ds).1 = (h.methodsOf ds).map fun m => (m.1.name, m.2) := by
  induction ds generalizing h with
  | nil => rfl
  | cons d ds ih =>
    rw [declareMethods]
    simp [ih, methodsOf, newFunction, Array.size_push]

/-- The functions for the methods of a class have the declarations of these. -/
theorem function_addClass_of_mem {s : ScopeId} {ds : List FunDecl} {cls : Class} {m : FunDecl × FunctionId}
    (hm : m ∈ h.methodsOf ds) : m.2.index < (h.addClass (methodClosures s ds) cls).functions.size ∧
      ((h.addClass (methodClosures s ds) cls).function m.2).declaration = m.1 := by
  obtain ⟨⟨d, n⟩, hmem, rfl⟩ := List.mem_map.1 hm
  obtain ⟨hge, hd⟩ := List.mem_zipIdx_iff_le_and_getElem?_sub.1 hmem
  have hfunction : (h.functions ++ methodClosures s ds)[n]? = some ⟨d, s⟩ := by
    rw [Array.getElem?_append_right hge, methodClosures, List.getElem?_toArray, List.getElem?_map, hd]
    rfl
  refine ⟨(Array.getElem?_eq_some_iff.1 hfunction).1, ?_⟩
  show (((h.functions ++ methodClosures s ds)[n]?).getD default).declaration = d
  rw [hfunction]
  rfl

/-- The class that a deed declares is as it was declared. -/
theorem isDeclared_addClass (s : ScopeId) (name : String) (parent : Option ClassId) (ds : List FunDecl) :
    (h.addClass (methodClosures s ds) ⟨name, parent, .ofList (declareMethods h s ds).1⟩).IsDeclared ⟨h.classes.size⟩
      ⟨name, parent, h.methodsOf ds⟩ := by
  have hclass : (h.addClass (methodClosures s ds) ⟨name, parent, .ofList (declareMethods h s ds).1⟩).classOf
      ⟨h.classes.size⟩ = ⟨name, parent, .ofList (declareMethods h s ds).1⟩ := by
    rw [classOf_addClass, if_pos rfl]
  refine ⟨?_, by rw [hclass], by rw [hclass], fun x => ?_, fun m hm => function_addClass_of_mem hm⟩
  · show h.classes.size < (h.classes.push _).size
    rw [Array.size_push]
    exact Nat.lt_succ_self _
  · rw [hclass, find?_ofList, declareMethods_fst, ← List.map_reverse, List.find?_map, ClassRecord.method?, Option.map_map]
    rfl

/-- The past tells of the classes as long as none is added. -/
theorem Recalls.keep (hrecalls : h.Recalls past) (hshape : h.KeepsShape h') (hclasses : h'.classes = h.classes) :
    h'.Recalls past := by
  intro k
  rcases hrecalls k with ⟨hnone, habsent⟩ | ⟨record, hrecord, hk⟩
  · exact .inl ⟨hnone, by rwa [hclasses]⟩
  · exact .inr ⟨record, hrecord, hk.keep hshape⟩

/-- The past tells of a class that is added by its declaration. -/
theorem Recalls.does (hrecalls : h.Recalls past) (hdoes : h.Does d h') : h'.Recalls (d :: past) := by
  have hshape := hdoes.changes.keepsShape
  cases hdoes with
  | element id slot v => exact hrecalls.keep hshape rfl
  | field o name v => exact hrecalls.keep hshape rfl
  | declaration s name parent ds =>
    intro k
    by_cases hk : (⟨h.classes.size⟩ : ClassId) = k
    · subst hk
      exact .inr ⟨_, by simp [Deed.class?, Deed.record?, declaration], isDeclared_addClass s name parent ds⟩
    · -- Any other class is there if it was there before, and then it is as it was.
      have hclass : Deed.class? (h.declaration name parent ds :: past) k = Deed.class? past k := by
        rw [Deed.class?, List.findSome?_cons, declaration, Deed.record?, if_neg hk]
        rfl
      rw [hclass]
      rcases hrecalls k with ⟨hnone, habsent⟩ | ⟨record, hrecord, hold⟩
      · refine .inl ⟨hnone, ?_⟩
        have hindex : k.index ≠ h.classes.size := fun heq => hk (heq ▸ rfl)
        show (h.classes.push _).size ≤ k.index
        rw [Array.size_push]
        omega
      · exact .inr ⟨record, hrecord, hold.keep hshape⟩

/-- What tells of the classes goes on to do so together with the deeds that are added. -/
theorem Becomes.recalls (hbecomes : h.Becomes recent h') (hrecalls : h.Recalls past) : h'.Recalls (recent ++ past) := by
  induction hbecomes with
  | refl => exact hrecalls
  | gain _ hgain ih => exact ih.keep hgain.change.keepsShape hgain.classes
  | deed _ hdoes ih => exact ih.does hdoes

end Heap

end Lox
