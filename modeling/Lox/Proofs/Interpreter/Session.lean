import Mathlib.Logic.Relation
import Lox.Interpreter.Datum
import Lox.Interpreter.Inspection
import Lox.Proofs.Machine.Context

/-!
# Sessions

A session as a transition system. Its configurations are those of the machine; where nothing is left to do, a host may
edit the session or have it run a task. `Reached` are the configurations of a session from its first on, those in the
middle of a run included, and `Session` are the interpreters between its runs.
-/

namespace Lox

/-- What a host may have a session run. The data of a call are looked up in the global scope, so a value that a run has
answered takes part in a later call only if a global name holds it. -/
inductive Task where
  | program (p : Program)
  | statement (st : Stmt)
  | call (callee : Datum) (arguments : List Datum)
  /-- A call that is not checked for its arguments and depth. -/
  | invocation (callee : Datum) (arguments : List Datum)

/-- What a host keeps to: the tasks it sets and the names it defines. -/
structure Usage where
  task : Task → Prop
  name : String → Prop

/-- A host that keeps to nothing. -/
def Usage.any : Usage := ⟨fun _ => True, fun _ => True⟩

/-- A program that is read from a text. -/
def Program.IsRead (p : Program) : Prop :=
  ∃ text, Program.parse text = .ok p

/-- A task whose programs and statements are read from texts. -/
def Task.IsRead : Task → Prop
  | program p => p.IsRead
  | statement st => ∃ p : Program, p.IsRead ∧ st ∈ p
  | call _ _ => True
  | invocation _ _ => True

/-- A host that runs what is read from texts, and defines neither `this` nor `super`. -/
def Usage.proper : Usage := ⟨Task.IsRead, fun name => name ≠ thisName ∧ name ≠ superName⟩

/-- What the definition of each builtin keeps, the definition of all of them keeps. -/
theorem Heap.defineBuiltins_keeps {p : Heap → Prop} {scope : ScopeId}
    (hdefine : ∀ (h : Heap) (b : Builtin), p h → p (h.define scope b.name (.builtin b))) {h : Heap} (hp : p h) :
    p (h.defineBuiltins scope) := by
  unfold defineBuiltins
  generalize Builtin.all = bs
  induction bs generalizing h with
  | nil => exact hp
  | cons b bs ih => exact ih (hdefine h b hp)

namespace Interpreter

/-- The interpreter at another state of its session. -/
def atState (i : Interpreter) (s : State) : Interpreter :=
  { i with state := s }

/-- Where the run of a task starts. A call of what is not defined does not start. -/
inductive Starts (i : Interpreter) : Task → Config → Prop
  | program (p : Program) : Starts i (.program p) (i.start p)
  | statement (st : Stmt) : Starts i (.statement st) (i.startOne st)
  | call {callee : Datum} {arguments : List Datum} {f : Value} {values : List Value} {i' i'' : Interpreter}
      (hf : i.embed callee = .ok (f, i')) (hvalues : i'.embedAll arguments = .ok (values, i'')) :
      Starts i (.call callee arguments) (i''.startCall f values)
  | invocation {callee : Datum} {arguments : List Datum} {f : Value} {values : List Value} {i' i'' : Interpreter}
      (hf : i.embed callee = .ok (f, i')) (hvalues : i'.embedAll arguments = .ok (values, i'')) :
      Starts i (.invocation callee arguments) (i''.startInvocation f values)

/-- What may be done to a session without running anything, by its host or, as to the printer, by the system. -/
inductive Edits (usage : Usage) (i : Interpreter) : Interpreter → Prop
  | define {name : String} {d : Datum} {v : Value} {i' : Interpreter} (hname : usage.name name)
      (hv : i.embed d = .ok (v, i')) : Edits usage i (i'.define name v)
  | assign {name : String} {d : Datum} {v : Value} {i' i'' : Interpreter} (hv : i.embed d = .ok (v, i'))
      (h : i'.assign name v = .ok i'') : Edits usage i i''
  | setField {object field : String} {o : InstanceId} {d : Datum} {v : Value} {i' : Interpreter}
      (ho : i.global object = .ok (.instanceObject o)) (hv : i.embed d = .ok (v, i')) :
      Edits usage i (i'.setField o field v)
  | property {object field : String} {o : InstanceId} (ho : i.global object = .ok (.instanceObject o)) :
      Edits usage i (i.property o field).2
  | takeOutput : Edits usage i i.takeOutput.2
  /-- The printer comes to refuse other lines. -/
  | printer (refusal? : String → Option SystemError) : Edits usage i (i.atState { i.state with refusal? })

/-- One transition of a session: a step of the machine or, where nothing is left to do, an edit or the start of a
task. Of the interpreter only the settings and the global scope matter. -/
inductive Next (usage : Usage) (i : Interpreter) : Config → Config → Prop
  | step (c : Config) : Next usage i c (c.step i.settings)
  | run {completion : Completion} {s : State} {task : Task} {c : Config} (htask : usage.task task)
      (hc : (i.atState s).Starts task c) : Next usage i ⟨.deliver completion, [], s⟩ c
  | edit {completion : Completion} {s : State} {i' : Interpreter} (hi : (i.atState s).Edits usage i') :
      Next usage i ⟨.deliver completion, [], s⟩ ⟨.deliver completion, [], i'.state⟩

/-- The configuration of an interpreter that has run nothing yet. -/
def idle (i : Interpreter) : Config :=
  ⟨.deliver (.value .nil), [], i.state⟩

/-- The configurations of the session that starts with an interpreter. -/
def Reached (usage : Usage) (i : Interpreter) (c : Config) : Prop :=
  Relation.ReflTransGen (i.Next usage) i.idle c

/-- The interpreters between the runs of the session that starts with an interpreter. -/
def Session (usage : Usage) (i j : Interpreter) : Prop :=
  ∃ completion s, i.Reached usage ⟨.deliver completion, [], s⟩ ∧ j = i.atState s

variable {usage : Usage} {i j : Interpreter} {c : Config}

/-! ## Annotations -/

/-- What holds at first of something together with its annotation, and is kept by every transition of both, holds all
along. -/
theorem keeps_annotated {α β : Type} {S : α × β → α × β → Prop} {p : α → β → Prop} {a a' : α} {b b' : β} (hp : p a b)
    (hnext : ∀ a b a' b', p a b → S (a, b) (a', b') → p a' b') (h : Relation.ReflTransGen S (a, b) (a', b')) :
    p a' b' := by
  -- Over pairs, so that the induction is on a relation between variables.
  have hpairs : ∀ x, Relation.ReflTransGen S (a, b) x → p x.1 x.2 := by
    intro x hx
    induction hx with
    | refl => exact hp
    | @tail y z _ hyz ih => exact hnext y.1 y.2 z.1 z.2 ih hyz
  exact hpairs (a', b') h

/-- If every transition can be followed together with some annotation, and annotations add no transition, then whatever
is reached is reached together with some annotation. -/
theorem reflTransGen_iff_exists_annotation {α β : Type} {R : α → α → Prop} {S : α × β → α × β → Prop}
    (hS : ∀ a b a', R a a' ↔ ∃ b', S (a, b) (a', b')) {a a' : α} (b : β) :
    Relation.ReflTransGen R a a' ↔ ∃ b', Relation.ReflTransGen S (a, b) (a', b') := by
  constructor
  · intro ha'
    induction ha' with
    | refl => exact ⟨b, .refl⟩
    | tail _ hnext ih =>
      obtain ⟨b', hb'⟩ := ih
      obtain ⟨b'', hnext'⟩ := (hS _ b' _).1 hnext
      exact ⟨b'', hb'.tail hnext'⟩
  · rintro ⟨b', hb'⟩
    exact keeps_annotated (p := fun a' _ => Relation.ReflTransGen R a a') .refl
      (fun a₁ b₁ a₂ b₂ ha₁ hnext => ha₁.tail ((hS a₁ b₁ a₂).2 ⟨b₂, hnext⟩)) hb'

/-! ## Edits -/

/-- Data are put into the heap, and nothing else changes. -/
theorem embed_eq_withHeap {d : Datum} {v : Value} (h : i.embed d = .ok (v, j)) :
    ∃ heap, i.state.heap.embed i.globals d = .ok (v, heap) ∧ j = i.withHeap heap := by
  unfold Interpreter.embed at h
  cases hd : i.state.heap.embed i.globals d with
  | error e =>
    rw [hd] at h
    exact absurd h (by simp [Except.map])
  | ok result =>
    rw [hd] at h
    obtain ⟨rfl, rfl⟩ := Prod.mk.inj (Except.ok.inj h)
    exact ⟨result.2, rfl, rfl⟩

/-- Several data are put into the heap, and nothing else changes. -/
theorem embedAll_eq_withHeap {ds : List Datum} {vs : List Value} (h : i.embedAll ds = .ok (vs, j)) :
    ∃ heap, i.state.heap.embedAll i.globals ds = .ok (vs, heap) ∧ j = i.withHeap heap := by
  unfold Interpreter.embedAll at h
  cases hd : i.state.heap.embedAll i.globals ds with
  | error e =>
    rw [hd] at h
    exact absurd h (by simp [Except.map])
  | ok result =>
    rw [hd] at h
    obtain ⟨rfl, rfl⟩ := Prod.mk.inj (Except.ok.inj h)
    exact ⟨result.2, rfl, rfl⟩

/-- What is called and its arguments are put into the heap, and nothing else changes. -/
theorem embeds_eq_withHeap {callee : Datum} {arguments : List Datum} {f : Value} {values : List Value}
    {i' : Interpreter} (hf : i.embed callee = .ok (f, i')) (hvalues : i'.embedAll arguments = .ok (values, j)) :
    ∃ heap heap', i.state.heap.embed i.globals callee = .ok (f, heap) ∧
      heap.embedAll i.globals arguments = .ok (values, heap') ∧ j = i.withHeap heap' := by
  obtain ⟨heap, hembed, rfl⟩ := embed_eq_withHeap hf
  obtain ⟨heap', hembeds, rfl⟩ := embedAll_eq_withHeap hvalues
  exact ⟨heap, heap', hembed, hembeds, rfl⟩

/-- Reading a property from outside may make a bound method, and changes nothing else. -/
theorem property_eq_withHeap (i : Interpreter) (o : InstanceId) (name : String) :
    ∃ heap, (i.property o name).2 = i.withHeap heap := by
  obtain ⟨completion, heap, hfinal⟩ : ∃ completion heap,
      (Config.readProperty o name [] i.state).final? = some (completion, { i.state with heap }) := by
    unfold Config.readProperty
    split <;> exact ⟨_, _, rfl⟩
  refine ⟨heap, ?_⟩
  rw [Interpreter.property, hfinal]
  rfl

/-- A name that is assigned from outside is bound anew, and nothing else changes. -/
theorem assign_eq_withHeap {name : String} {v : Value} (h : i.assign name v = .ok j) :
    ∃ heap, i.state.heap.assign? i.globals name v = some heap ∧ j = i.withHeap heap := by
  unfold Interpreter.assign at h
  split at h
  · rename_i heap hheap
    exact ⟨heap, hheap, (Except.ok.inj h).symm⟩
  · exact absurd h (by simp)

/-- An edit leaves the scope in which statements run and the number of nested calls as they are. -/
theorem Edits.scope_depth (h : i.Edits usage j) : j.state.scope = i.state.scope ∧ j.state.depth = i.state.depth := by
  cases h with
  | define hname hv =>
    obtain ⟨heap, -, rfl⟩ := embed_eq_withHeap hv
    exact ⟨rfl, rfl⟩
  | assign hv h =>
    obtain ⟨heap, -, rfl⟩ := embed_eq_withHeap hv
    obtain ⟨heap', -, rfl⟩ := assign_eq_withHeap h
    exact ⟨rfl, rfl⟩
  | setField ho hv =>
    obtain ⟨heap, -, rfl⟩ := embed_eq_withHeap hv
    exact ⟨rfl, rfl⟩
  | property ho =>
    obtain ⟨heap, hheap⟩ := property_eq_withHeap i _ _
    rw [hheap]
    exact ⟨rfl, rfl⟩
  | takeOutput => exact ⟨rfl, rfl⟩
  | printer => exact ⟨rfl, rfl⟩

/-! ## Runs -/

/-- A completed run is a run of the machine to a configuration in which nothing is left to do. -/
theorem complete_eq_some_iff {steps : Nat} {r : Except RuntimeError Value} :
    i.complete steps c = some (r, j) ↔
      ∃ completion s, c.advance i.settings steps = ⟨.deliver completion, [], s⟩ ∧ completion.result = r ∧
        i.atState s = j := by
  simp only [complete, Option.map_eq_some_iff, Prod.exists, Config.final?_eq_some_iff, Prod.mk.injEq, atState]

/-- A run stays within the session. -/
theorem advance_reaches (n : Nat) (c : Config) :
    Relation.ReflTransGen (i.Next usage) c (c.advance i.settings n) :=
  Config.advance_keeps (p := Relation.ReflTransGen (i.Next usage) c) (fun c' hc' => hc'.tail (.step c')) n .refl

/-- A session starts with its first interpreter. -/
theorem Session.refl (usage : Usage) (i : Interpreter) : Session usage i i :=
  ⟨.value .nil, i.state, .refl, rfl⟩

/-- The settings and the global scope stay the same. -/
theorem Session.settings_globals (h : Session usage i j) : j.settings = i.settings ∧ j.globals = i.globals := by
  obtain ⟨completion, s, -, rfl⟩ := h
  exact ⟨rfl, rfl⟩

/-- Where a task starts, the session goes on. -/
theorem Session.starts (h : Session usage i j) {task : Task} (htask : usage.task task) (hc : j.Starts task c) :
    i.Reached usage c := by
  obtain ⟨completion, s, hs, rfl⟩ := h
  exact hs.tail (.run htask hc)

/-- A completed run leads to the next interpreter of the session. -/
theorem Session.complete (h : Session usage i j) {task : Task} (htask : usage.task task) (hc : j.Starts task c)
    {steps : Nat} {r : Except RuntimeError Value} {j' : Interpreter} (hr : j.complete steps c = some (r, j')) :
    Session usage i j' := by
  have hstart := h.starts htask hc
  obtain ⟨completion, s, hs, rfl⟩ := h
  obtain ⟨completion', s', hend, -, rfl⟩ := complete_eq_some_iff.1 hr
  have hreach : i.Reached usage (c.advance (i.atState s).settings steps) := hstart.trans (advance_reaches steps c)
  rw [hend] at hreach
  exact ⟨completion', s', hreach, rfl⟩

end Interpreter

end Lox
