import Lox.Proofs.Interpreter.Nesting

/-!
# The parent of the enclosing class

What `super` stands for depends on nothing but the class that encloses the running code and the parent that it was
declared with (`super_pinned`): the scope of its methods binds `super` to that parent for good, and every evaluation of
`super` finds that binding and the instance on which the method of the class runs.
-/

namespace Lox

variable {n : Nesting} {frames : List Frame} {s : State} {settings : Settings}

namespace Config

/-! ## What `super` stands for -/

/-- What the parent of a class is evaluated to where the class is declared; without one, `nil` stands in its place. -/
inductive ParentIs (s : State) : Option String → Value → Prop
  | none : ParentIs s none .nil
  | some {name : String} {p : ClassId} (h : s.heap.lookup? s.scope name = some (.classObject p)) :
    ParentIs s (some name) (.classObject p)

/-- The parents on record are classes or `nil`. -/
theorem parent_eq_nil_or_class (hstands : Stands n frames s) {k : ClassId} {o : InstanceId}
    (hhome : n.home = some (k, o)) :
    n.declarations.parent k = .nil ∨ ∃ p, n.declarations.parent k = .classObject p := by
  have hparent := (hstands.sound.classes k (hstands.sees.known _ hhome)).parent
  cases hclass : (s.heap.classOf k).parent with
  | none =>
    rw [hclass] at hparent
    exact .inl hparent
  | some p =>
    rw [hclass] at hparent
    exact .inr ⟨p, hparent⟩

/-- In a class, `this` is the instance on which its method runs. -/
theorem thisInstance_eq (hstands : Stands n frames s) {k : ClassId} {o : InstanceId}
    (hhome : n.home = some (k, o)) : thisInstance s = .ok o := by
  have hthis := hstands.sees.this
  rw [hhome, Option.map_some] at hthis
  rw [thisInstance, hthis]

/-- In a class without a parent, there is no `super`. -/
theorem superClass_eq_error (hstands : Stands n frames s) {k : ClassId} {o : InstanceId}
    (hhome : n.home = some (k, o)) (hparent : n.declarations.parent k = .nil) :
    superClass s = .error (.unresolvedName superName) := by
  have hsuper := hstands.sees.super
  rw [hhome, Option.map_some, hparent] at hsuper
  rw [superClass, hsuper]

/-- In a class with a parent, `super` is this parent. -/
theorem superClass_eq_ok (hstands : Stands n frames s) {k p : ClassId} {o : InstanceId}
    (hhome : n.home = some (k, o)) (hparent : n.declarations.parent k = .classObject p) :
    superClass s = .ok p := by
  have hsuper := hstands.sees.super
  rw [hhome, Option.map_some, hparent] at hsuper
  rw [superClass, hsuper]

/-- Neither `super` nor `this` is ever bound to a value of a wrong kind. -/
theorem superClass_thisInstance_ne (hstands : Stands n frames s) (kind : Kind) :
    superClass s ≠ .error (.type (.superBinding kind)) ∧ thisInstance s ≠ .error (.type (.thisBinding kind)) := by
  cases hhome : n.home with
  | none =>
    have hsuper := hstands.sees.super
    have hthis := hstands.sees.this
    rw [hhome, Option.map_none] at hsuper hthis
    rw [superClass, thisInstance, hsuper, hthis]
    exact ⟨nofun, nofun⟩
  | some home =>
    obtain ⟨k, o⟩ := home
    rw [thisInstance_eq hstands hhome]
    rcases parent_eq_nil_or_class hstands hhome with hnil | ⟨p, hp⟩
    · rw [superClass_eq_error hstands hhome hnil]
      exact ⟨nofun, nofun⟩
    · rw [superClass_eq_ok hstands hhome hp]
      exact ⟨nofun, nofun⟩

/-- What a method of the parent evaluates to, by the record alone. -/
theorem readSuper_eq (hstands : Stands n frames s) {k : ClassId} {o : InstanceId} (hhome : n.home = some (k, o))
    (m : String) :
    (n.declarations.parent k = .nil ∧ readSuper m frames s = raise (.unresolvedName superName) frames s) ∨
      ∃ p, n.declarations.parent k = .classObject p ∧
        ((∃ f, s.heap.findMethod? p m = some f ∧ readSuper m frames s = bindMethod o f frames s) ∨
          (s.heap.findMethod? p m = none ∧ readSuper m frames s =
            raise (.unresolvedProperty (.superclass (s.heap.classOf p).name) m) frames s)) := by
  rcases parent_eq_nil_or_class hstands hhome with hnil | ⟨p, hp⟩
  · refine .inl ⟨hnil, ?_⟩
    rw [readSuper, superClass_eq_error hstands hhome hnil]
  · refine .inr ⟨p, hp, ?_⟩
    rw [readSuper, superClass_eq_ok hstands hhome hp]
    dsimp only
    rw [thisInstance_eq hstands hhome]
    dsimp only
    cases hmethod : s.heap.findMethod? p m with
    | some f => exact .inl ⟨f, rfl, rfl⟩
    | none => exact .inr ⟨rfl, rfl⟩

/-! ## Declarations -/

/-- A declaration puts on record what the parent was evaluated to. -/
theorem executed_classDecl (name : String) (ds : List FunDecl) {parent : Option String} {v : Value}
    (hparent : ParentIs s parent v) :
    (n.executed (.classDecl name parent ds) s).declarations = n.declarations.withClass s.heap v := by
  cases hparent with
  | none => rfl
  | some hp => simp only [Nesting.executed, hp]

/-- A declaration binds the name to the class, which is the next one. -/
theorem execute_classDecl (name : String) (ds : List FunDecl) (frames : List Frame) {parent : Option String} {v : Value}
    (hparent : ParentIs s parent v) (hscope : s.scope.index < s.heap.scopes.size) :
    (execute (.classDecl name parent ds) frames s).state.heap.classes.size = s.heap.classes.size + 1 ∧
      (execute (.classDecl name parent ds) frames s).state.heap.own s.scope name =
        some (.classObject ⟨s.heap.classes.size⟩) := by
  have hdeclared (parent : Option ClassId) :
      (declareClass name parent ds frames s).state.heap.classes.size = s.heap.classes.size + 1 ∧
        (declareClass name parent ds frames s).state.heap.own s.scope name =
          some (.classObject ⟨s.heap.classes.size⟩) := by
    rw [declareClass_eq]
    refine ⟨Array.size_push _, ?_⟩
    show (declaredHeap name parent ds s).own s.scope name = _
    rw [declaredHeap, Heap.own_define, if_pos]
    refine ⟨rfl, rfl, ?_⟩
    show s.scope.index < (s.heap.withSuper s.scope parent).scopes.size
    simp only [Heap.withSuper, Heap.size_scopes_define, Heap.size_scopes_newScope]
    omega
  cases hparent with
  | none => exact hdeclared none
  | @some x p hp =>
    simp only [execute, hp]
    exact hdeclared (some p)

end Config

namespace Interpreter

/-! ## Sessions -/

variable {i : Interpreter} {c : Config}

/-- What holds of `super` in a configuration of a session, and from there on. -/
structure PinsSuper (i : Interpreter) (c : Config) (n : Nesting) : Prop where
  /-- The scope of a method itself binds `super` to the parent on record, and goes on doing so, as the class goes on
  having the method. -/
  methods : ∀ (k : ClassId) (name : String) (f : FunctionId),
    (c.state.heap.classOf k).methods.find? name = some f →
      c.state.heap.own (c.state.heap.function f).scope superName = some (n.declarations.parent k) ∧
        ∀ c' n', i.Later .proper c n c' n' →
          c'.state.heap.classOf k = c.state.heap.classOf k ∧
          c'.state.heap.function f = c.state.heap.function f ∧
          n'.declarations.parent k = n.declarations.parent k ∧
          c'.state.heap.own (c.state.heap.function f).scope superName = some (n.declarations.parent k)
  /-- The parent on record is, from the declaration of the class on, what the parent was evaluated to there. -/
  declared : ∀ (name : String) (parent : Option String) (ds : List FunDecl) (v : Value),
    c.focus = .execute (.classDecl name parent ds) → Config.ParentIs c.state parent v →
      (c.step i.settings).state.heap.own c.state.scope name = some (.classObject ⟨c.state.heap.classes.size⟩) ∧
        ∀ c' n', i.Later .proper (c.step i.settings) (n.after i.settings c) c' n' →
          n'.declarations.parent ⟨c.state.heap.classes.size⟩ = v
  /-- In code that a class encloses, `super` finds the methods of the parent on record and binds them to the instance on
  which the method of the class runs. It is an error if there is no parent, or if the parent has no such method. -/
  evaluated : ∀ (m : String) (k : ClassId) (o : InstanceId),
    c.focus = .evaluate (.super m) → n.home = some (k, o) →
      (n.declarations.parent k = .nil ∧
        c.step i.settings = .raise (.unresolvedName superName) c.frames c.state) ∨
      ∃ p, n.declarations.parent k = .classObject p ∧
        ((∃ f, c.state.heap.findMethod? p m = some f ∧ c.step i.settings = .bindMethod o f c.frames c.state) ∨
          (c.state.heap.findMethod? p m = none ∧ c.step i.settings =
            .raise (.unresolvedProperty (.superclass (c.state.heap.classOf p).name) m) c.frames c.state))
  /-- Whatever code runs, neither `super` nor `this` is bound to a value of a wrong kind. -/
  kinds : ∀ kind : Kind, Config.superClass c.state ≠ .error (.type (.superBinding kind)) ∧
    Config.thisInstance c.state ≠ .error (.type (.thisBinding kind))

/-- A configuration that agrees with its nesting pins `super`. -/
theorem Agrees.pinsSuper (hagrees : i.Agrees c n) : i.PinsSuper c n := by
  have hstands := hagrees.pinned.stands
  refine ⟨fun k name f hf => ?_, fun name parent ds v hfocus hparent => ?_, fun m k o hfocus hhome => ?_, fun kind =>
    Config.superClass_thisInstance_ne hstands kind⟩
  · -- The scope of the method binds `super` by the soundness of the heap, and no later heap rebinds it.
    have hk := Heap.index_lt_of_find? hf
    obtain ⟨hthere, horigin⟩ := (hstands.sound.classes k hk).methods name f hf
    have hclosed := hstands.sound.functions f hthere
    obtain ⟨-, hsuper⟩ := hclosed.method k horigin
    refine ⟨hsuper, fun c' n' hlater => ?_⟩
    have hgrown := (hlater.continues hagrees).1.grown
    obtain ⟨-, hclass, hparent⟩ := hgrown.classes k hk
    obtain ⟨-, hfunction, -⟩ := hgrown.functions f hthere
    obtain ⟨-, -, hown⟩ := hgrown.scopes _ hclosed.there
    exact ⟨hclass, hfunction, hparent, by rw [hown superName not_bindable_super, hsuper]⟩
  · obtain ⟨focus, frames, s⟩ := c
    obtain rfl : focus = .execute (.classDecl name parent ds) := hfocus
    change Config.ParentIs s parent v at hparent
    obtain ⟨hsize, hname⟩ := Config.execute_classDecl name ds frames hparent hstands.sees.there
    refine ⟨hname, fun c' n' hlater => ?_⟩
    -- The class is on record after this step, and what is on record stays.
    have hnext := NextIn.continues (.step _ n) hagrees
    have hagrees' : i.Agrees _ _ := ⟨hnext.pinned, hagrees.globals.extend hnext.grown⟩
    have hgrown := (hlater.continues hagrees').1.grown
    have hthere :
        s.heap.classes.size < (Config.execute (.classDecl name parent ds) frames s).state.heap.classes.size := by
      rw [hsize]
      exact Nat.lt_succ_self _
    obtain ⟨-, -, hkept⟩ := hgrown.classes ⟨s.heap.classes.size⟩ hthere
    rw [hkept]
    show (n.executed (.classDecl name parent ds) s).declarations.parent ⟨s.heap.classes.size⟩ = v
    rw [Config.executed_classDecl name ds hparent]
    exact if_neg (Nat.lt_irrefl _)
  · -- The evaluation looks `super` up from where it is at home.
    obtain ⟨focus, frames, s⟩ := c
    obtain rfl : focus = .evaluate (.super m) := hfocus
    exact Config.readSuper_eq hstands hhome m

/-- `super` is pinned. In a session that starts with a fresh interpreter, as long as the host runs what is read from
texts and defines neither `this` nor `super`, every configuration can be followed together with its nesting, as can
every transition. With whatever nesting it is reached, every method of every class closes over the parent that the class
was declared with, and code that a class encloses finds this parent's methods, whatever the class of the instance is and
whatever the names have come to mean. -/
theorem super_pinned (settings : Settings) :
    (∀ c, (fresh settings).Reached .proper c ↔ ∃ n, (fresh settings).ReachedIn .proper c n) ∧
      (∀ c n c', (fresh settings).Next .proper c c' ↔ ∃ n', (fresh settings).NextIn .proper (c, n) (c', n')) ∧
      ∀ c n, (fresh settings).ReachedIn .proper c n → (fresh settings).PinsSuper c n :=
  ⟨fun _ => reached_iff, fun _ n _ => next_iff n, fun _ _ hc => hc.agrees.pinsSuper⟩

/-- Some steps of a configuration together with its nesting. -/
def follow (settings : Settings) : Nat → Config × Nesting → Config × Nesting
  | 0, x => x
  | k + 1, (c, n) => follow settings k (c.step settings, n.after settings c)

/-- What follows some steps later is later. -/
theorem later_follow (usage : Usage) (i : Interpreter) (k : Nat) (c : Config) (n : Nesting) :
    i.Later usage c n (follow i.settings k (c, n)).1 (follow i.settings k (c, n)).2 := by
  induction k generalizing c n with
  | zero => exact .refl
  | succ k ih => exact .head (.step c n) (ih _ _)

/-- A method that is inherited calls that of the parent, whose name no longer means the parent. -/
def renamedParent : String :=
  "class A{m(){}}class B<A{m(){super.m;}}class C<B{}A=nil;C().m();"

/-- Settings that allow two nested calls, with a clock that stands still. -/
def twoCalls : Settings := ⟨2, fun _ => 0⟩

/-- The program of `renamedParent`. -/
def renamedParentProgram : Program :=
  [.classDecl "A" none [.mk "m" [] []],
    .classDecl "B" (some "A") [.mk "m" [] [.expression (.super "m")]],
    .classDecl "C" (some "B") [],
    .expression (.assign "A" (.literal .nil)),
    .expression (.call (.get (.call (.variable "C") []) "m") [])]

/-- Where the method of the parent is read, and the nesting there. -/
def renamedParentCall : Config × Nesting :=
  follow twoCalls 24 ((fresh twoCalls).start renamedParentProgram, {})

/-- The instance is of the third class and the method that runs of the second; the first is found, which no name means
any more. -/
theorem super_pinned_renamedParent :
    ∃ c n, (fresh twoCalls).ReachedIn .proper c n ∧ c.focus = .evaluate (.super "m") ∧ n.home = some (⟨1⟩, ⟨0⟩) ∧
      (c.state.heap.instanceOf ⟨0⟩).ofClass = ⟨2⟩ ∧ c.state.heap.lookup? c.state.scope "A" = some .nil ∧
      c.state.heap.own (c.state.heap.function ⟨1⟩).scope superName = some (.classObject ⟨0⟩) ∧
      c.step twoCalls = .bindMethod ⟨0⟩ ⟨0⟩ c.frames c.state := by
  have hread : Program.parse renamedParent = .ok renamedParentProgram := (Program.parse_eq _).trans rfl
  have hproper : Usage.proper.task (.program renamedParentProgram) := ⟨renamedParent, hread⟩
  have hstart : (fresh twoCalls).NextIn .proper ((fresh twoCalls).idle, {})
      ((fresh twoCalls).start renamedParentProgram, {}) := .run hproper (.program _)
  have hreached : (fresh twoCalls).ReachedIn .proper renamedParentCall.1 renamedParentCall.2 :=
    .head hstart (later_follow .proper (fresh twoCalls) 24 _ _)
  have hpins := (super_pinned twoCalls).2.2 _ _ hreached
  have hmethod : (renamedParentCall.1.state.heap.classOf ⟨1⟩).methods.find? "m" = some ⟨1⟩ := rfl
  have hparent : renamedParentCall.2.declarations.parent ⟨1⟩ = .classObject ⟨0⟩ := rfl
  have hfind : renamedParentCall.1.state.heap.findMethod? ⟨0⟩ "m" = some ⟨0⟩ := rfl
  refine ⟨_, _, hreached, rfl, rfl, rfl, rfl, ?_, ?_⟩
  · rw [(hpins.methods _ _ _ hmethod).1, hparent]
  · rcases hpins.evaluated "m" ⟨1⟩ ⟨0⟩ rfl rfl with ⟨hnil, -⟩ | ⟨p, hp, hcall⟩
    · exact nomatch hparent.symm.trans hnil
    · obtain rfl : p = ⟨0⟩ := Value.classObject.inj (hp.symm.trans hparent)
      rcases hcall with ⟨f, hf, hstep⟩ | ⟨hnone, -⟩
      · obtain rfl : f = ⟨0⟩ := Option.some.inj (hf.symm.trans hfind)
        exact hstep
      · exact nomatch hnone.symm.trans hfind

end Interpreter

end Lox
