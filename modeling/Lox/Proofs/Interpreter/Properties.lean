import Lox.Proofs.Heap.Walks
import Lox.Proofs.Interpreter.History
import Lox.Proofs.Interpreter.Integrity

/-!
# Properties

What the properties of an instance are is told by the past of a session alone (`property_lookup`): a field is what was
last stored in it, and where nothing was, there is the method which the nearest class on the chain of the instance
declares last under that name. Classes are constructed with as many arguments as the initializer that the chain leads to
has parameters. What is stored in other fields and what classes are declared later does not matter.
-/

namespace Lox

namespace Deed

/-- The last method of a name in the body of a class, as it was declared. -/
def method? (past : List Deed) (name : String) (k : ClassId) : Option (FunDecl × FunctionId) :=
  (class? past k).bind fun record => record.method? name

/-- The parent of a class, as it was declared. -/
def parent? (past : List Deed) (k : ClassId) : Option ClassId :=
  (class? past k).bind ClassRecord.parent

/-- The method that the nearest class on the chain of a class declares last under a name, or none if no class on the
chain declares one. -/
def Nearest (past : List Deed) (name : String) (k : ClassId) (m : Option (FunDecl × FunctionId)) : Prop :=
  Walk (method? past name) (parent? past) k m

end Deed

variable {past past' : List Deed} {k : ClassId} {name : String} {m : FunDecl × FunctionId}
  {found : Option (FunDecl × FunctionId)}

/-! ## Methods -/

namespace Heap

variable {h : Heap}

/-- The table of a class has under a name the last method that was declared. A class that was not declared has none. -/
theorem Recalls.find? (hrecalls : h.Recalls past) (name : String) (k : ClassId) :
    (h.classOf k).methods.find? name = (Deed.method? past name k).map Prod.snd := by
  rcases hrecalls k with ⟨hnone, habsent⟩ | ⟨record, hrecord, hk⟩
  · rw [Deed.method?, hnone, classOf, Array.getElem?_eq_none habsent]
    rfl
  · rw [Deed.method?, hrecord, hk.method]
    rfl

/-- The parent of a class is the one that was declared. -/
theorem Recalls.parent (hrecalls : h.Recalls past) (k : ClassId) : (h.classOf k).parent = Deed.parent? past k := by
  rcases hrecalls k with ⟨hnone, habsent⟩ | ⟨record, hrecord, hk⟩
  · rw [Deed.parent?, hnone, classOf, Array.getElem?_eq_none habsent]
    rfl
  · rw [Deed.parent?, hrecord, hk.parent]
    rfl

/-- A class is there if it was declared, and not otherwise. -/
theorem Recalls.there_iff (hrecalls : h.Recalls past) (k : ClassId) :
    k.index < h.classes.size ↔ (Deed.class? past k).isSome := by
  rcases hrecalls k with ⟨hnone, habsent⟩ | ⟨record, hrecord, hk⟩
  · simp [hnone, habsent]
  · simp [hrecord, hk.there]

/-- A class has the name that was declared. -/
theorem Recalls.className {record : ClassRecord} (hrecalls : h.Recalls past) (hrecord : Deed.class? past k = some record) :
    (h.classOf k).name = record.name := by
  rcases hrecalls k with ⟨hnone, -⟩ | ⟨record', hrecord', hk⟩
  · cases hnone.symm.trans hrecord
  · obtain rfl := Option.some.inj (hrecord.symm.trans hrecord')
    exact hk.name

/-- The chain of a class ends, and the class has the method that is found on it. -/
theorem Recalls.exists_nearest (hrecalls : h.Recalls past) (hparents : h.ParentsFirst) (name : String) (k : ClassId) :
    ∃ found, Deed.Nearest past name k found ∧ h.findMethod? k name = found.map Prod.snd := by
  have hwalk := walk_findMethod? hparents k name
  rw [funext (hrecalls.find? name), funext hrecalls.parent] at hwalk
  exact hwalk.exists_of_map

/-- A class has the method that is found on its chain. -/
theorem Recalls.findMethod? (hrecalls : h.Recalls past) (hparents : h.ParentsFirst)
    (hfound : Deed.Nearest past name k found) : h.findMethod? k name = found.map Prod.snd := by
  obtain ⟨found', hfound', hmethod⟩ := hrecalls.exists_nearest hparents name k
  rw [hmethod, hfound.unique hfound']

/-- The function for the method that is found has the declaration of this method. -/
theorem Recalls.declaration (hrecalls : h.Recalls past) (hfound : Deed.Nearest past name k (some m)) :
    (h.function m.2).declaration = m.1 := by
  obtain ⟨k', hm⟩ := hfound.exists_find rfl
  obtain ⟨record, hrecord, hmethod⟩ := Option.bind_eq_some_iff.1 hm
  rcases hrecalls k' with ⟨hnone, -⟩ | ⟨record', hrecord', hk⟩
  · cases hnone.symm.trans hrecord
  · obtain rfl := Option.some.inj (hrecord.symm.trans hrecord')
    exact (hk.functions m (List.mem_reverse.1 (List.mem_of_find?_eq_some hmethod))).2

/-- Classes that are there keep the methods that are found on their chains. -/
theorem KeepsShape.findMethodWithin {h' : Heap} (hshape : h.KeepsShape h') (hparents : h.ParentsFirst) (name : String) :
    ∀ {n : Nat} {k : ClassId}, k.index < h.classes.size →
      h'.findMethodWithin name n k = h.findMethodWithin name n k
  | 0, _, _ => rfl
  | n + 1, k, hk => by
    have hclass : h.classOf k = h'.classOf k := (hshape.classes.getD hk _).2
    rw [Heap.findMethodWithin, Heap.findMethodWithin, ← hclass]
    cases (h.classOf k).methods.find? name with
    | some f => rfl
    | none =>
      cases hparent : (h.classOf k).parent with
      | none => rfl
      | some p => exact hshape.findMethodWithin hparents name (Nat.lt_trans (hparents k p hparent) hk)

/-- Instances that are there keep their properties as long as nothing is stored in their fields. -/
theorem Becomes.property {h' : Heap} {deeds : List Deed} (hbecomes : h.Becomes deeds h') (hintact : h.IsIntact)
    {o : InstanceId} (ho : o.index < h.instances.size) (hdeeds : ∀ v, .field o name v ∉ deeds) :
    h'.property o name = h.property o name := by
  have hclass : (h'.instanceOf o).ofClass = (h.instanceOf o).ofClass :=
    (hbecomes.keepsShape.instances.getD ho _).2.ofClass
  have hfields : (h'.instanceOf o).fields.find? name = (h.instanceOf o).fields.find? name := by
    rw [hbecomes.field? name (.inl ho), Deed.field?_eq_none_iff.2 hdeeds, Option.none_or]
  have hmethod : h'.findMethod? (h.instanceOf o).ofClass name = h.findMethod? (h.instanceOf o).ofClass name :=
    hbecomes.keepsShape.findMethodWithin hintact.parents name (hintact.instances o ho)
  simp only [Heap.property, hfields, hclass, hmethod]

end Heap

namespace Interpreter

open Config

variable {usage : Usage} {i : Interpreter} {c c' : Config} {settings : Settings} {o : InstanceId} {v : Value}

/-! ## Fields -/

/-- A step of an intact configuration stores fields in instances that are there. -/
theorem there_of_mem_deeds (hc : c.IsIntact) (hmem : Deed.field o name v ∈ c.deeds) :
    o.index < c.state.heap.instances.size := by
  unfold Config.deeds at hmem
  split at hmem
  · split at hmem <;> simp at hmem
  · obtain ⟨rfl, rfl, rfl⟩ := Deed.field.inj (List.mem_singleton.1 hmem)
    rename_i hframes _
    exact hc.sustains.frames (.fieldValue o name) (hframes ▸ List.mem_cons_self) (.instanceObject o) rfl
  · simp [Heap.declaration] at hmem
  · split at hmem <;> simp [Heap.declaration] at hmem
  · simp at hmem

/-- So does the host. -/
theorem EditsBy.there {deeds : List Deed} {j : Interpreter} (hedit : i.EditsBy usage deeds j)
    (hi : i.state.heap.IsIntact) (hmem : Deed.field o name v ∈ deeds) : o.index < i.state.heap.instances.size := by
  cases hedit with
  | setField ho hv =>
    obtain ⟨rfl, rfl, rfl⟩ := Deed.field.inj (List.mem_singleton.1 hmem)
    exact isThere_of_global_intact hi ho
  | _ => exact absurd hmem List.not_mem_nil

/-- A transition keeps it up that the fields of instances are what was last stored in them. -/
theorem NextBy.field? (hnext : i.NextBy usage (c, past) (c', past')) (hc : c.IsIntact)
    (hfields : ∀ o name, (c.state.heap.instanceOf o).fields.find? name = Deed.field? past o name) (o : InstanceId)
    (name : String) : (c'.state.heap.instanceOf o).fields.find? name = Deed.field? past' o name := by
  obtain ⟨deeds, rfl, hbecomes, hthere⟩ : ∃ deeds, past' = deeds ++ past ∧ c.state.heap.Becomes deeds c'.state.heap ∧
      ∀ x v, Deed.field o x v ∈ deeds → o.index < c.state.heap.instances.size := by
    cases hnext with
    | step => exact ⟨_, rfl, step_becomes i.settings c, fun x v hmem => there_of_mem_deeds hc hmem⟩
    | run htask hstart => exact ⟨[], rfl, hstart.becomes, fun x v hmem => absurd hmem List.not_mem_nil⟩
    | edit hedit => exact ⟨_, rfl, hedit.becomes, fun x v hmem => hedit.there hc.sustains.heap hmem⟩
  have hold : o.index < c.state.heap.instances.size ∨ ∀ x v, Deed.field o x v ∉ deeds :=
    (Nat.lt_or_ge _ _).imp_right fun habsent x v hmem => absurd (hthere x v hmem) (Nat.not_lt.2 habsent)
  calc (c'.state.heap.instanceOf o).fields.find? name
      = (Deed.field? deeds o name).or ((c.state.heap.instanceOf o).fields.find? name) := hbecomes.field? name hold
    _ = (Deed.field? deeds o name).or (Deed.field? past o name) := by rw [hfields]
    _ = Deed.field? (deeds ++ past) o name := (Deed.field?_append deeds past o name).symm

/-! ## What a session begins with -/

/-- Builtins are bound without any deed. -/
theorem defineBuiltins_becomes (h : Heap) (scope : ScopeId) : h.Becomes [] (h.defineBuiltins scope) :=
  Heap.defineBuiltins_keeps (fun _ b hbecomes => hbecomes.gain (.define scope b.name (.builtin b))) .refl

/-- The first heap of a session is made without any deed. -/
theorem fresh_becomes (settings : Settings) : ({} : Heap).Becomes [] (fresh settings).state.heap :=
  (Heap.Gain.newScope none).once.trans (defineBuiltins_becomes _ _)

/-- The heap of a session is what its past makes of the empty one. -/
theorem ReachedBy.becomes (hc : (fresh settings).ReachedBy usage c past) : ({} : Heap).Becomes past c.state.heap := by
  obtain ⟨deeds, hpast, hbecomes⟩ := LaterBy.becomes hc
  rw [hpast]
  exact (fresh_becomes settings).trans hbecomes

/-- The past of a session tells of its classes. -/
theorem ReachedBy.recalls (hc : (fresh settings).ReachedBy usage c past) : c.state.heap.Recalls past := by
  have hempty : ({} : Heap).Recalls [] := fun k => .inl ⟨rfl, Nat.zero_le _⟩
  simpa using hc.becomes.recalls hempty

/-- All along a session, the fields of instances are what was last stored in them. -/
theorem ReachedBy.field? (hc : (fresh settings).ReachedBy usage c past) (o : InstanceId) (name : String) :
    (c.state.heap.instanceOf o).fields.find? name = Deed.field? past o name := by
  have hfresh : (fresh settings).Reached usage (fresh settings).idle := .refl
  -- Only instances that are there are stored into, which is known of intact configurations.
  refine (keeps_annotated (p := fun c past => c.IsIntact ∧
    ∀ o name, (c.state.heap.instanceOf o).fields.find? name = Deed.field? past o name)
    ⟨hfresh.isIntact, fun o name => (fresh_becomes settings).field? name (.inr fun _ _ => List.not_mem_nil)⟩ ?_ hc).2 o name
  rintro c₁ past₁ c₂ past₂ ⟨hintact, hfields⟩ hnext
  exact ⟨((next_iff_exists_past past₁).2 ⟨past₂, hnext⟩).isIntact hintact, NextBy.field? hnext hintact hfields⟩

/-! ## What properties are -/

/-- How many parameters an initializer has that is found on the chain of a class, or none is. -/
def parameterCount : Option (FunDecl × FunctionId) → Nat
  | some m => m.1.parameters.length
  | none => 0

/-- How an instance of a class is constructed, with an initializer that is found on its chain or without one. -/
def constructs (k : ClassId) (found : Option (FunDecl × FunctionId)) (arguments : List Value) (frames : List Frame)
    (s : State) : Config :=
  let (o, heap) := s.heap.newInstance k
  match found with
  | some init => .enter init.2 (some o) arguments (.construct o :: frames) { s with heap }
  | none => .yield (.instanceObject o) frames { s with heap }

/-- What the past of a session tells of properties and of classes at a moment of it. -/
structure ToldByPast (settings : Settings) (usage : Usage) (c : Config) (past : List Deed) : Prop where
  /-- The classes that are there are those that were declared. -/
  classes : ∀ k : ClassId, k.index < c.state.heap.classes.size ↔ (Deed.class? past k).isSome
  /-- The chain of a class ends in one way, with a method or without. -/
  chain : ∀ name k, ∃ found, ∀ found', Deed.Nearest past name k found' ↔ found' = found
  /-- The instances that are there are of classes that were declared. -/
  instances : ∀ o : InstanceId, o.index < c.state.heap.instances.size →
    ∃ record, Deed.class? past (c.state.heap.instanceOf o).ofClass = some record
  /-- A property reads as what was last stored in the field of this name, as it was stored, if anything was. -/
  field : ∀ (o : InstanceId) name v, Deed.field? past o name = some v → ∀ frames,
    resume settings (.propertyOwner name) (.instanceObject o) frames c.state = yield v frames c.state
  /-- If nothing was, then it reads as the method that is found on the chain of the instance, bound to the instance, and
  this runs what was declared. -/
  method : ∀ (o : InstanceId) name m, Deed.field? past o name = none →
    Deed.Nearest past name (c.state.heap.instanceOf o).ofClass (some m) →
      (∀ frames, resume settings (.propertyOwner name) (.instanceObject o) frames c.state =
        bindMethod o m.2 frames c.state) ∧ (c.state.heap.function m.2).declaration = m.1
  /-- If none is found, either, then it is unresolved. -/
  missing : ∀ (o : InstanceId) name record, Deed.field? past o name = none →
    Deed.Nearest past name (c.state.heap.instanceOf o).ofClass none →
      Deed.class? past (c.state.heap.instanceOf o).ofClass = some record → ∀ frames,
        resume settings (.propertyOwner name) (.instanceObject o) frames c.state =
          raise (.unresolvedProperty (.instanceOf record.name) name) frames c.state
  /-- A class is called with just as many arguments as the initializer that is found on its chain has parameters, or
  with none. -/
  construction : ∀ k record found, Deed.class? past k = some record → Deed.Nearest past initializerName k found →
    ∀ arguments frames,
      (arguments.length ≠ parameterCount found → apply settings (.classObject k) arguments frames c.state =
        raise (.arity record.name (.fixed (parameterCount found)) arguments.length) frames c.state) ∧
      (arguments.length = parameterCount found → c.state.depth < settings.maxCallDepth →
        apply settings (.classObject k) arguments frames c.state =
          constructs k found arguments (.leaveCall :: frames) { c.state with depth := c.state.depth + 1 })
  /-- Later deeds do not change a property of an instance that is there now, unless they store a field of this name in
  this instance. -/
  later : ∀ c' past', (fresh settings).LaterBy usage c past c' past' → ∃ deeds, past' = deeds ++ past ∧
    ∀ (o : InstanceId) name, o.index < c.state.heap.instances.size → (∀ v, .field o name v ∉ deeds) →
      c'.state.heap.property o name = c.state.heap.property o name

/-- A class accepts as many arguments as the initializer has parameters that is found on its chain. -/
theorem classArity_eq {h : Heap} (hrecalls : h.Recalls past) (hparents : h.ParentsFirst)
    (hfound : Deed.Nearest past initializerName k found) : h.classArity k = .fixed (parameterCount found) := by
  rw [Heap.classArity, hrecalls.findMethod? hparents hfound]
  cases found with
  | none => rfl
  | some m =>
    show h.functionArity m.2 = _
    rw [Heap.functionArity, hrecalls.declaration hfound]
    rfl

/-- A class is constructed with an initializer that is found on its chain, or without one. -/
theorem invoke_class {h : Heap} {s : State} {arguments : List Value} {frames : List Frame} (hs : s.heap = h)
    (hrecalls : h.Recalls past) (hparents : h.ParentsFirst) (hfound : Deed.Nearest past initializerName k found) :
    invoke settings (.classObject k) arguments frames s = constructs k found arguments frames s := by
  subst hs
  simp only [invoke, constructs, findMethod?_newInstance, hrecalls.findMethod? hparents hfound]
  cases found <;> rfl

/-- Properties are looked up among the fields, and then on the chain of classes. At every moment of a session, and after
whatever history of declarations and stores, by programs or by the host, a property of an instance is what was last
stored in that very field, as it was stored, if anything was; else the method which the nearest class on the chain of
the instance declares last under that name, bound to the instance; else it is unresolved. No later store into another
field and no later declaration changes it. And a class takes just as many arguments as the initializer that its chain
leads to has parameters, or none. -/
theorem property_lookup {settings : Settings} {usage : Usage} {c : Config}
    (hc : (fresh settings).Reached usage c) : (∃ past, (fresh settings).ReachedBy usage c past) ∧
      ∀ past, (fresh settings).ReachedBy usage c past → ToldByPast settings usage c past := by
  refine ⟨reached_iff_exists_past.1 hc, fun past hpast => ?_⟩
  have hrecalls := hpast.recalls
  have hintact := hc.isIntact.sustains.heap
  have hparents := hintact.parents
  -- Past and heap tell the same, so each clause is a step of the machine on what the past tells.
  exact
    { classes := hrecalls.there_iff
      chain := fun name k =>
        let ⟨found, hfound, _⟩ := hrecalls.exists_nearest hparents name k
        ⟨found, hfound.iff_eq⟩
      instances := fun o ho =>
        Option.isSome_iff_exists.1 ((hrecalls.there_iff _).1 (hintact.instances o ho))
      field := fun o name v hv frames => by
        simp only [resume, readProperty, Heap.property, hpast.field? o name, hv]
      method := fun o name m hnone hfound => by
        refine ⟨fun frames => ?_, hrecalls.declaration hfound⟩
        simp only [resume, readProperty, Heap.property, hpast.field? o name, hnone,
          hrecalls.findMethod? hparents hfound, Option.map_some]
      missing := fun o name record hnone hfound hrecord frames => by
        simp only [resume, readProperty, Heap.property, hpast.field? o name, hnone,
          hrecalls.findMethod? hparents hfound, Option.map_none, hrecalls.className hrecord]
      construction := fun k record found hrecord hfound arguments frames => by
        have hcallable : c.state.heap.callable? (.classObject k) = some (record.name, .fixed (parameterCount found)) := by
          rw [Heap.callable?, classArity_eq hrecalls hparents hfound, hrecalls.className hrecord]
        constructor
        · intro hcount
          simp only [apply, hcallable, Arity.accepts, hcount, decide_false, Bool.not_false, if_true]
        · intro hcount hdepth
          simp only [apply, hcallable, Arity.accepts, hcount, Nat.not_le.2 hdepth, decide_true, Bool.not_true,
            Bool.false_eq_true, if_false]
          exact invoke_class rfl hrecalls hparents hfound
      later := fun c' past' hlater => by
        obtain ⟨deeds, hpast', hbecomes⟩ := hlater.becomes
        exact ⟨deeds, hpast', fun o name ho hdeeds => hbecomes.property hintact ho hdeeds⟩ }

/-- A class with two methods of one name and an initializer, a class that inherits from it, an instance of that, and a
field of the instance. -/
def inheritance : Program :=
  [.classDecl "A" none [⟨"m", [], []⟩, ⟨"m", ["x"], []⟩, ⟨initializerName, ["y"], []⟩],
    .classDecl "B" (some "A") [],
    .varDecl "b" (some (.call (.variable "B") [.literal .nil])),
    .expression (.set (.variable "b") "f" (.literal (.boolean true)))]

/-- Where a run of `inheritance` comes to. -/
def afterInheritance : Config :=
  ((fresh ⟨3, fun _ => 0⟩).start inheritance).advance ⟨3, fun _ => 0⟩ 26

/-- The past of the session then: a field was stored in an instance, and before that the two classes were declared. -/
def inheritancePast : List Deed :=
  [.field ⟨0⟩ "f" (.boolean true), .declaration ⟨1⟩ ⟨"B", some ⟨0⟩, []⟩,
    .declaration ⟨0⟩ ⟨"A", none, [(⟨"m", [], []⟩, ⟨0⟩), (⟨"m", ["x"], []⟩, ⟨1⟩), (⟨initializerName, ["y"], []⟩, ⟨2⟩)]⟩]

/-- The field reads as it was stored, the method as the second one of its name, and the class takes one argument. -/
theorem property_lookup_inheritance :
    afterInheritance.IsFinal ∧ (fresh ⟨3, fun _ => 0⟩).ReachedBy .any afterInheritance inheritancePast ∧
      resume ⟨3, fun _ => 0⟩ (.propertyOwner "f") (.instanceObject ⟨0⟩) [] afterInheritance.state =
        yield (.boolean true) [] afterInheritance.state ∧
      resume ⟨3, fun _ => 0⟩ (.propertyOwner "m") (.instanceObject ⟨0⟩) [] afterInheritance.state =
        bindMethod ⟨0⟩ ⟨1⟩ [] afterInheritance.state ∧
      (afterInheritance.state.heap.function ⟨1⟩).declaration = ⟨"m", ["x"], []⟩ ∧
      apply ⟨3, fun _ => 0⟩ (.classObject ⟨1⟩) [] [] afterInheritance.state =
        raise (.arity "B" (.fixed 1) 0) [] afterInheritance.state := by
  have hstart : (fresh ⟨3, fun _ => 0⟩).ReachedBy .any ((fresh ⟨3, fun _ => 0⟩).start inheritance) [] :=
    .single (.run trivial (.program inheritance))
  have hpast : ((fresh ⟨3, fun _ => 0⟩).start inheritance).deedsWithin ⟨3, fun _ => 0⟩ 26 ++ [] = inheritancePast := rfl
  have hreached : (fresh ⟨3, fun _ => 0⟩).ReachedBy .any afterInheritance inheritancePast :=
    hpast ▸ hstart.trans (laterBy_advance 26 _ [])
  have htold := (property_lookup (reached_iff_exists_past.2 ⟨_, hreached⟩)).2 _ hreached
  have hmethod := htold.method ⟨0⟩ "m" (⟨"m", ["x"], []⟩, ⟨1⟩) rfl (.onwards rfl rfl (.found rfl))
  have hconstruction := htold.construction ⟨1⟩ ⟨"B", some ⟨0⟩, []⟩ (some (⟨initializerName, ["y"], []⟩, ⟨2⟩)) rfl
    (.onwards rfl rfl (.found rfl)) [] []
  exact ⟨⟨.value .nil, _, rfl⟩, hreached, htold.field ⟨0⟩ "f" (.boolean true) rfl [], hmethod.1 [], hmethod.2,
    hconstruction.1 (by decide)⟩

end Interpreter

end Lox
