import Lox.Proofs.Heap.Shape

/-!
# No reference dangles

A heap is intact (`IsIntact`) if whatever its objects refer to is there, and every class is younger than its parent.
Each operation of the machine leaves it so, provided that the values which are bound or stored are there.
-/

namespace Lox.Heap

variable {h h' : Heap} {s : ScopeId} {v : Value} {name : String} {c : ClassId} {o : InstanceId} {f : FunctionId}

/-- The values that are bound or stored are there, and so are the parents of classes, which are older than these, the
functions in their tables, the classes of instances, and the receivers and methods of bound methods. -/
structure IsIntact (h : Heap) : Prop where
  values : ∀ v, h.Holds v → v.IsThere h
  parents : h.ParentsFirst
  methods : ∀ (c : ClassId) (name : String) (f : FunctionId), (h.classOf c).methods.find? name = some f →
    f.index < h.functions.size
  instances : ∀ o : InstanceId, o.index < h.instances.size → (h.instanceOf o).ofClass.index < h.classes.size
  boundMethods : ∀ b : BoundMethodId, b.index < h.boundMethods.size →
    (h.boundMethod b).receiver.index < h.instances.size ∧ (h.boundMethod b).method.index < h.functions.size

/-- A change keeps what counts for receivers. -/
theorem Change.retains (hc : h.Change h') : h.Retains h' :=
  hc.keepsShape.retains

/-- A heap that retains an intact one is intact if what is new in it refers to what is there. -/
theorem IsIntact.retain (hintact : h.IsIntact) (hr : h.Retains h')
    (hvalues : ∀ v, h'.Holds v → h.Holds v ∨ v.IsThere h')
    (hclasses : ∀ c : ClassId, h'.classOf c = h.classOf c ∨
      (∀ p, (h'.classOf c).parent = some p → p.index < c.index) ∧
        ∀ name f, (h'.classOf c).methods.find? name = some f → f.index < h'.functions.size)
    (hinstances : ∀ o : InstanceId, o.index < h'.instances.size →
      o.index < h.instances.size ∨ (h'.instanceOf o).ofClass.index < h'.classes.size)
    (hbound : ∀ b : BoundMethodId, b.index < h'.boundMethods.size → b.index < h.boundMethods.size ∨
      (h'.boundMethod b).receiver.index < h'.instances.size ∧
        (h'.boundMethod b).method.index < h'.functions.size) : h'.IsIntact := by
  refine ⟨fun v hv => ?_, fun c p hp => ?_, fun c name f hf => ?_, fun o ho => ?_, fun b hb => ?_⟩
  · rcases hvalues v hv with hold | hnew
    · exact (hintact.values v hold).retain hr
    · exact hnew
  · rcases hclasses c with hold | ⟨hnew, -⟩
    · rw [hold] at hp
      exact hintact.parents c p hp
    · exact hnew p hp
  · rcases hclasses c with hold | ⟨-, hnew⟩
    · rw [hold] at hf
      exact Nat.lt_of_lt_of_le (hintact.methods c name f hf) hr.functions
    · exact hnew name f hf
  · rcases hinstances o ho with hold | hnew
    · rw [(hr.instances o hold).2]
      exact (hr.classes _ (hintact.instances o hold)).1
    · exact hnew
  · rcases hbound b hb with hold | hnew
    · obtain ⟨hreceiver, hmethod⟩ := hintact.boundMethods b hold
      rw [(hr.boundMethods b hold).2]
      exact ⟨(hr.instances _ hreceiver).1, Nat.lt_of_lt_of_le hmethod hr.functions⟩
    · exact hnew

/-! ## Scopes and sequences -/

/-- What changes scopes and sequences alone leaves the heap intact if values in it are there. -/
theorem IsIntact.of_eq (hintact : h.IsIntact) (scopes : Array Scope) (sequences : Array (Array Value))
    (hr : h.Retains { h with scopes, sequences })
    (hvalues : ∀ v, Holds { h with scopes, sequences } v → h.Holds v ∨ v.IsThere h) :
    IsIntact { h with scopes, sequences } :=
  hintact.retain hr (fun v hv => (hvalues v hv).imp_right (·.retain hr)) (fun _ => .inl rfl) (fun _ ho => .inl ho)
    fun _ hb => .inl hb

/-- A name is bound to a value that is there. -/
theorem IsIntact.define (hintact : h.IsIntact) (s : ScopeId) (name : String) (hv : v.IsThere h) :
    (h.define s name v).IsIntact ∧ h.Retains (h.define s name v) := by
  have hr := (Change.define (h := h) s name v).retains
  refine ⟨hintact.of_eq _ h.sequences hr fun w hw => ?_, hr⟩
  exact (Holds.of_define hw).imp_right fun (hnew : w = v) => hnew ▸ hv

/-- A scope is added. -/
theorem IsIntact.newScope (hintact : h.IsIntact) (parent : Option ScopeId) :
    (h.newScope parent).2.IsIntact ∧ h.Retains (h.newScope parent).2 := by
  have hr := (Change.newScope (h := h) parent).retains
  exact ⟨hintact.of_eq _ h.sequences hr fun _ hw => .inl (Holds.of_newScope hw), hr⟩

/-- A sequence of values that are there is added. -/
theorem IsIntact.newSequence (hintact : h.IsIntact) {elements : Array Value} (hv : ∀ v ∈ elements, v.IsThere h) :
    (h.newSequence elements).2.IsIntact ∧ h.Retains (h.newSequence elements).2 := by
  have hr := (Change.newSequence (h := h) elements).retains
  exact ⟨hintact.of_eq h.scopes _ hr fun w hw => (Holds.of_newSequence hw).imp_right (hv w), hr⟩

/-- An element of a sequence is replaced by a value that is there. -/
theorem IsIntact.setElement (hintact : h.IsIntact) (id : SequenceId) (slot : Nat) (hv : v.IsThere h) :
    (h.setElement id slot v).IsIntact ∧ h.Retains (h.setElement id slot v) := by
  have hr := (Change.setElement (h := h) id slot v).retains
  refine ⟨hintact.of_eq h.scopes _ hr fun w hw => ?_, hr⟩
  exact (Holds.of_setElement hw).imp_right fun (hnew : w = v) => hnew ▸ hv

/-! ## Instances and bound methods -/

/-- An instance of a class that is there is added. -/
theorem IsIntact.newInstance (hintact : h.IsIntact) (hc : c.index < h.classes.size) :
    (h.newInstance c).2.IsIntact ∧ h.Retains (h.newInstance c).2 := by
  have hr := (Change.newInstance (h := h) c).retains
  have hinstance (o : InstanceId) : (h.newInstance c).2.instanceOf o =
      if o.index = h.instances.size then { ofClass := c } else h.instanceOf o := getD_push
  have hsize : (h.newInstance c).2.instances.size = h.instances.size + 1 := Array.size_push _
  refine ⟨hintact.retain hr (fun _ hv => .inl (Holds.of_newInstance hv)) (fun _ => .inl rfl) (fun o ho => ?_)
    fun _ hb => .inl hb, hr⟩
  rw [hinstance]
  split
  · exact .inr hc
  · exact .inl (by omega)

/-- A value that is there is stored in a field. -/
theorem IsIntact.setField (hintact : h.IsIntact) (o : InstanceId) (name : String) (hv : v.IsThere h) :
    (h.setField o name v).IsIntact ∧ h.Retains (h.setField o name v) := by
  have hr := (Change.setField (h := h) o name v).retains
  have hsize : (h.setField o name v).instances.size = h.instances.size := Array.size_modify
  refine ⟨hintact.retain hr (fun w hw => ?_) (fun _ => .inl rfl) (fun t ht => .inl (by omega)) fun _ hb => .inl hb, hr⟩
  exact (Holds.of_setField hw).imp_right fun (hnew : w = v) => hnew ▸ hv.retain hr

/-- A function that is there is bound to an instance that is there. -/
theorem IsIntact.newBoundMethod (hintact : h.IsIntact) (ho : o.index < h.instances.size)
    (hf : f.index < h.functions.size) :
    (h.newBoundMethod o f).2.IsIntact ∧ h.Retains (h.newBoundMethod o f).2 := by
  have hr := (Change.newBoundMethod (h := h) o f).retains
  have hbound (b : BoundMethodId) : (h.newBoundMethod o f).2.boundMethod b =
      if b.index = h.boundMethods.size then ⟨o, f⟩ else h.boundMethod b := getD_push
  have hsize : (h.newBoundMethod o f).2.boundMethods.size = h.boundMethods.size + 1 := Array.size_push _
  refine ⟨hintact.retain hr (fun _ hv => .inl (hv.of_eq rfl rfl rfl)) (fun _ => .inl rfl) (fun _ ho => .inl ho)
    fun b hb => ?_, hr⟩
  rw [hbound]
  split
  · exact .inr ⟨ho, hf⟩
  · exact .inl (by omega)

/-! ## Functions and classes -/

/-- A function is added. -/
theorem IsIntact.newFunction (hintact : h.IsIntact) (closure : Closure) :
    (h.newFunction closure).2.IsIntact ∧ h.Retains (h.newFunction closure).2 := by
  have hr := (Change.newFunction (h := h) closure).retains
  exact ⟨hintact.retain hr (fun _ hv => .inl (hv.of_eq rfl rfl rfl)) (fun _ => .inl rfl) (fun _ ho => .inl ho)
    fun _ hb => .inl hb, hr⟩

/-- A class whose parent is there is added with the functions in its table. -/
theorem IsIntact.addClass (hintact : h.IsIntact) (closures : Array Closure) (cls : Class)
    (hparent : ∀ p, cls.parent = some p → p.index < h.classes.size)
    (hmethods : ∀ name f, cls.methods.find? name = some f → f.index < h.functions.size + closures.size) :
    (h.addClass closures cls).IsIntact ∧ h.Retains (h.addClass closures cls) := by
  have hfunctions : (h.addClass closures cls).functions.size = h.functions.size + closures.size := Array.size_append
  have hclasses : (h.addClass closures cls).classes.size = h.classes.size + 1 := Array.size_push _
  have hr : h.Retains (h.addClass closures cls) := by
    refine ⟨Nat.le_refl _, by omega, fun c hc => ⟨by omega, ?_⟩, fun _ ho => ⟨ho, rfl⟩, fun _ hb => ⟨hb, rfl⟩⟩
    rw [classOf_addClass, if_neg (Nat.ne_of_lt hc)]
  refine ⟨hintact.retain hr (fun _ hv => .inl (hv.of_eq rfl rfl rfl)) (fun c => ?_) (fun _ ho => .inl ho)
    fun _ hb => .inl hb, hr⟩
  rw [classOf_addClass, hfunctions]
  split
  · rename_i hlast
    exact .inr ⟨fun p hp => hlast ▸ hparent p hp, hmethods⟩
  · exact .inl rfl

/-! ## What is found -/

/-- What is found on a walk to the ancestors of a class is there. -/
theorem IsIntact.of_findMethod? (hintact : h.IsIntact) (hf : h.findMethod? c name = some f) :
    f.index < h.functions.size := by
  obtain ⟨k, -, hk⟩ := exists_inherits_of_findMethod? hf
  exact hintact.methods k name f hk

/-- What a name means is there. -/
theorem IsIntact.of_lookup? (hintact : h.IsIntact) (hv : h.lookup? s name = some v) : v.IsThere h := by
  obtain ⟨t, ht⟩ := exists_own_of_lookup? hv
  exact hintact.values v (.bound ht)

/-- A method that an instance has is there. -/
theorem IsIntact.of_property (hintact : h.IsIntact) (hf : h.property o name = .method f) :
    f.index < h.functions.size := by
  unfold property at hf
  split at hf
  · exact nomatch hf
  · split at hf
    · rename_i f' hmethod
      exact Property.method.inj hf ▸ hintact.of_findMethod? hmethod
    · exact nomatch hf

end Lox.Heap
