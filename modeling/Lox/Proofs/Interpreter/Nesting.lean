import Lox.Proofs.Interpreter.Data
import Lox.Proofs.Interpreter.Session
import Lox.Proofs.Machine.Pinned

/-!
# Sessions with their nesting

A session is followed together with its nesting (`ReachedIn`). From a fresh interpreter on, as long as the host runs
what is read from texts and defines neither `this` nor `super`, every configuration agrees with its nesting, and its
heap extends all earlier ones (`ReachedIn.agrees`, `Later.continues`).
-/

namespace Lox

open Relation (ReflTransGen)

variable {usage : Usage} {i j : Interpreter} {c c' : Config} {n n' : Nesting} {r : Declarations} {h h' : Heap}

namespace Interpreter

/-- Where the run of a task starts, and the nesting there. -/
inductive StartsIn (i : Interpreter) (n : Nesting) : Task → Config → Nesting → Prop
  | program (p : Program) : StartsIn i n (.program p) (i.start p) n
  | statement (st : Stmt) : StartsIn i n (.statement st) (i.startOne st) n
  | call {callee : Datum} {arguments : List Datum} {f : Value} {values : List Value} {i' i'' : Interpreter}
      (hf : i.embed callee = .ok (f, i')) (hvalues : i'.embedAll arguments = .ok (values, i'')) :
      StartsIn i n (.call callee arguments) (i''.startCall f values) (n.applied i''.settings f values i''.state)
  | invocation {callee : Datum} {arguments : List Datum} {f : Value} {values : List Value} {i' i'' : Interpreter}
      (hf : i.embed callee = .ok (f, i')) (hvalues : i'.embedAll arguments = .ok (values, i'')) :
      StartsIn i n (.invocation callee arguments) (i''.startInvocation f values) (n.invoked f i''.state)

/-- One transition of a session together with its nesting. -/
inductive NextIn (usage : Usage) (i : Interpreter) : Config × Nesting → Config × Nesting → Prop
  | step (c : Config) (n : Nesting) : NextIn usage i (c, n) (c.step i.settings, n.after i.settings c)
  | run {completion : Completion} {s : State} {task : Task} {c : Config} {n n' : Nesting} (htask : usage.task task)
      (hc : (i.atState s).StartsIn n task c n') : NextIn usage i (⟨.deliver completion, [], s⟩, n) (c, n')
  | edit {completion : Completion} {s : State} {i' : Interpreter} {n : Nesting} (hi : (i.atState s).Edits usage i') :
      NextIn usage i (⟨.deliver completion, [], s⟩, n) (⟨.deliver completion, [], i'.state⟩, n)

/-- The session goes on from a configuration and its nesting to later ones. -/
def Later (usage : Usage) (i : Interpreter) (c : Config) (n : Nesting) (c' : Config) (n' : Nesting) : Prop :=
  ReflTransGen (i.NextIn usage) (c, n) (c', n')

/-- The configurations of a session, each with its nesting. -/
def ReachedIn (usage : Usage) (i : Interpreter) (c : Config) (n : Nesting) : Prop :=
  i.Later usage i.idle {} c n

/-- A task starts somewhere with a nesting just when it starts there. -/
theorem starts_iff {task : Task} (n : Nesting) : i.Starts task c ↔ ∃ n', i.StartsIn n task c n' := by
  constructor
  · intro hc
    cases hc with
    | program p => exact ⟨_, .program p⟩
    | statement st => exact ⟨_, .statement st⟩
    | call hf hvalues => exact ⟨_, .call hf hvalues⟩
    | invocation hf hvalues => exact ⟨_, .invocation hf hvalues⟩
  · rintro ⟨n', hc⟩
    cases hc with
    | program p => exact .program p
    | statement st => exact .statement st
    | call hf hvalues => exact .call hf hvalues
    | invocation hf hvalues => exact .invocation hf hvalues

/-- A nesting neither adds a transition nor rules one out. -/
theorem next_iff (n : Nesting) : i.Next usage c c' ↔ ∃ n', i.NextIn usage (c, n) (c', n') := by
  constructor
  · intro hnext
    cases hnext with
    | step => exact ⟨_, .step c n⟩
    | run htask hstart =>
      obtain ⟨n', hn'⟩ := (starts_iff n).1 hstart
      exact ⟨n', .run htask hn'⟩
    | edit hedit => exact ⟨n, .edit hedit⟩
  · rintro ⟨n', hnext⟩
    cases hnext with
    | step => exact .step c
    | run htask hstart => exact .run htask ((starts_iff n).2 ⟨n', hstart⟩)
    | edit hedit => exact .edit hedit

/-- The configurations of a session are those that have a nesting. -/
theorem reached_iff : i.Reached usage c ↔ ∃ n, i.ReachedIn usage c n :=
  reflTransGen_iff_exists_annotation (fun _ n _ => next_iff n) {}

end Interpreter

/-! ## Data -/

namespace Heap

/-- New sequences of plain values keep a heap sound. -/
def Upkeep.sound (r : Declarations) : Upkeep where
  heap := Sound r
  grows := Extends r r
  value h v := v.IsPlain r h
  refl hsound := .refl hsound.nested
  trans := .trans
  inert hv := hv.isPlain
  held hsound hv := hsound.values _ hv
  stays hv hgrown := hv.extend hgrown
  newSequence hsound hxs := ⟨hsound.newSequence hxs, trivial⟩

end Heap

/-! ## Transitions -/

namespace Interpreter

/-- A task that is read from texts starts in agreement with the nesting. -/
theorem StartsIn.continues {task : Task} (hstart : i.StartsIn n task c n') (hread : task.IsRead)
    (hstands : Stands n [] i.state) : Continues n i.state.heap n' c := by
  cases hstart with
  | program p =>
    obtain ⟨text, hparse⟩ := hread
    exact Config.push_continues hstands (bindsOnly_of_parse hparse) trivial
  | statement st =>
    obtain ⟨p, ⟨text, hparse⟩, hmem⟩ := hread
    have hst := Stmt.bindsOnly_of_mem (bindsOnly_of_parse hparse) hmem
    cases st <;> exact hstands.continues hst
  | call hf hvalues =>
    obtain ⟨heap, heap', hembed, hembeds, rfl⟩ := embeds_eq_withHeap hf hvalues
    obtain ⟨hgrown, hplain, hplains⟩ := (Heap.Upkeep.sound _).embeds hstands.sound hembed hembeds
    have hcall : Continues n heap' _ (Config.apply i.settings _ _ [] { i.state with heap := heap' }) :=
      Config.apply_continues (hstands.grow hgrown) hplain hplains
    exact ⟨hcall.pinned, hgrown.2.trans hcall.grown⟩
  | invocation hf hvalues =>
    obtain ⟨heap, heap', hembed, hembeds, rfl⟩ := embeds_eq_withHeap hf hvalues
    obtain ⟨hgrown, hplain, hplains⟩ := (Heap.Upkeep.sound _).embeds hstands.sound hembed hembeds
    have hcall : Continues n heap' _ (Config.invoke i.settings _ _ [] { i.state with heap := heap' }) :=
      Config.invoke_continues (hstands.grow hgrown) hplain hplains
    exact ⟨hcall.pinned, hgrown.2.trans hcall.grown⟩

/-- Reading a property from outside leads to the state to which it leads in a program. -/
theorem property_state (i : Interpreter) (o : InstanceId) (name : String) :
    (i.property o name).2.state = (Config.readProperty o name [] i.state).state := by
  unfold Interpreter.property Config.readProperty
  cases i.state.heap.property o name <;> rfl

/-- In a scope that sees no class, neither `this` nor `super` is assigned. -/
theorem bindable_of_locate? {scope : ScopeId} {name : String} {found : ScopeId × Value}
    (hsees : h.Sees r scope none) (hfound : h.locate? scope name = some found) : Bindable name := by
  have hlookup : h.lookup? scope name = some found.2 := by
    rw [Heap.lookup?, hfound]
    rfl
  constructor
  · rintro rfl
    rw [hsees.this] at hlookup
    exact nomatch hlookup
  · rintro rfl
    rw [hsees.super] at hlookup
    exact nomatch hlookup

/-- An edit of a host that defines neither `this` nor `super` makes a sound extension of the heap. -/
theorem Edits.grows (hedit : i.Edits .proper j) (hstands : Stands n [] i.state)
    (hglobals : i.state.heap.Sees n.declarations i.globals none) :
    j.state.heap.Sound n.declarations ∧ i.state.heap.Extends n.declarations n.declarations j.state.heap := by
  cases hedit with
  | define hname hv =>
    obtain ⟨heap, hembed, rfl⟩ := embed_eq_withHeap hv
    obtain ⟨⟨hsound, hgrown⟩, hplain⟩ := (Heap.Upkeep.sound _).embed hstands.sound hembed
    obtain ⟨hsound', hgrown'⟩ := hsound.define (s := i.globals) hname hplain
    exact ⟨hsound', hgrown.trans hgrown'⟩
  | assign hv h =>
    -- A name that is assigned is bound already, and in the global scope neither `this` nor `super` is.
    obtain ⟨heap, hembed, rfl⟩ := embed_eq_withHeap hv
    obtain ⟨⟨hsound, hgrown⟩, hplain⟩ := (Heap.Upkeep.sound _).embed hstands.sound hembed
    obtain ⟨heap', hassign, rfl⟩ := assign_eq_withHeap h
    obtain ⟨found, hfound, rfl⟩ := Option.map_eq_some_iff.1 hassign
    have hname := bindable_of_locate? (hglobals.extend hgrown) hfound
    obtain ⟨hsound', hgrown'⟩ := hsound.define (s := found.1) hname hplain
    exact ⟨hsound', hgrown.trans hgrown'⟩
  | setField ho hv =>
    obtain ⟨heap, hembed, rfl⟩ := embed_eq_withHeap hv
    obtain ⟨⟨hsound, hgrown⟩, hplain⟩ := (Heap.Upkeep.sound _).embed hstands.sound hembed
    obtain ⟨hsound', hgrown'⟩ := hsound.setField hplain
    exact ⟨hsound', hgrown.trans hgrown'⟩
  | @property object field o ho =>
    rw [property_state]
    have hread : Continues n i.state.heap n (Config.readProperty o field [] i.state) :=
      Config.readProperty_continues hstands
    exact ⟨hread.pinned.stands.sound, hread.grown⟩
  | takeOutput => exact ⟨hstands.sound, .refl hstands.sound.nested⟩
  | printer => exact ⟨hstands.sound, .refl hstands.sound.nested⟩

/-- The configuration agrees with its nesting, and the global scope sees no class. -/
structure Agrees (i : Interpreter) (c : Config) (n : Nesting) : Prop where
  pinned : Pinned n c
  globals : c.state.heap.Sees n.declarations i.globals none

/-- A transition keeps the agreement. -/
theorem NextIn.continues (hnext : i.NextIn .proper (c, n) (c', n')) (hagrees : i.Agrees c n) :
    Continues n c.state.heap n' c' := by
  obtain ⟨hpinned, hglobals⟩ := hagrees
  cases hnext with
  | step => exact hpinned.step i.settings
  | run htask hstart => exact hstart.continues htask hpinned.stands
  | @edit completion s i' _ hedit =>
    -- Between runs no frame is left, and an edit changes nothing but the heap and the output.
    have hgrown := hedit.grows hpinned.stands hglobals
    obtain ⟨hscope, -⟩ := hedit.scope_depth
    have hstands : Stands n [] i'.state := (hpinned.stands.grow hgrown).congr rfl hscope
    refine ⟨⟨hstands, ?_⟩, hgrown.2⟩
    have hfocus := hpinned.focus
    cases completion with
    | value v => exact Value.IsPlain.extend hfocus hgrown.2
    | returned v => exact Value.IsPlain.extend hfocus hgrown.2
    | _ => trivial

/-- All along a session the agreement is kept, and the heap is extended. -/
theorem Later.continues (hlater : i.Later .proper c n c' n') (hagrees : i.Agrees c n) :
    Continues n c.state.heap n' c' ∧ i.Agrees c' n' := by
  refine keeps_annotated (p := fun c' n' => Continues n c.state.heap n' c' ∧ i.Agrees c' n')
    ⟨⟨hagrees.pinned, .refl hagrees.pinned.stands.sound.nested⟩, hagrees⟩ ?_ hlater
  rintro c₁ n₁ c₂ n₂ ⟨hfirst, hagrees₁⟩ hnext
  have hnext' := NextIn.continues hnext hagrees₁
  exact ⟨⟨hnext'.pinned, hfirst.grown.trans hnext'.grown⟩, hnext'.pinned, hagrees₁.globals.extend hnext'.grown⟩

/-! ## The first configuration -/

/-- A heap that has a scope without bindings and nothing else is sound. -/
theorem bare_sound : (({} : Heap).newScope none).2.Sound r := by
  have hempty (s : ScopeId) : ({} : Heap).scope s = {} := rfl
  have hnested : (({} : Heap).newScope none).2.Nested :=
    Heap.Nested.newScope (fun s p hp => by simp [hempty] at hp) (by simp)
  refine ⟨hnested, fun v hv => ?_, fun f hf => ?_, fun c hc => ?_, fun b hb => ?_⟩
  · cases hv with
    | @bound s name hv =>
      have hnone : ({} : Heap).own s name = none := rfl
      rw [Heap.own_newScope, hnone] at hv
      exact absurd hv (by simp)
    | element hv => exact absurd hv (by simp [Heap.newScope, Heap.sequence])
    | @field o name hv =>
      have hnone : ((({} : Heap).newScope none).2.instanceOf o).fields.find? name = none := rfl
      exact absurd (hnone.symm.trans hv) (by simp)
  · exact absurd hf (Nat.not_lt_zero _)
  · exact absurd hc (Nat.not_lt_zero _)
  · exact absurd hb (Nat.not_lt_zero _)

/-- Builtins may be bound. -/
theorem bindable_builtin (b : Builtin) : Bindable b.name := by
  cases b <;> exact ⟨by decide, by decide⟩

/-- Builtins are defined in a sound extension. -/
theorem defineBuiltins_sound (scope : ScopeId) (hsound : h.Sound r) :
    (h.defineBuiltins scope).Sound r ∧ h.Extends r r (h.defineBuiltins scope) := by
  refine Heap.defineBuiltins_keeps (p := fun h' => h'.Sound r ∧ h.Extends r r h') ?_ ⟨hsound, .refl hsound.nested⟩
  rintro h' b ⟨hsound', hgrown⟩
  obtain ⟨hsound'', hgrown'⟩ := hsound'.define (s := scope) (v := .builtin b) (bindable_builtin b) trivial
  exact ⟨hsound'', hgrown.trans hgrown'⟩

/-- A session starts in agreement with the empty nesting. -/
theorem agrees_fresh (settings : Settings) : (fresh settings).Agrees (fresh settings).idle {} := by
  have hbare : (({} : Heap).newScope none).2.Sees ({} : Nesting).declarations ⟨0⟩ none :=
    ⟨by decide, nofun, rfl, rfl⟩
  obtain ⟨hsound, hgrown⟩ := defineBuiltins_sound (r := ({} : Nesting).declarations) ⟨0⟩ bare_sound
  have hglobals := hbare.extend hgrown
  exact ⟨⟨⟨hsound, hglobals, .nil⟩, trivial⟩, hglobals⟩

/-- Every configuration of a session agrees with its nesting. -/
theorem ReachedIn.agrees {settings : Settings} (hc : (fresh settings).ReachedIn .proper c n) :
    (fresh settings).Agrees c n :=
  (Later.continues hc (agrees_fresh settings)).2

end Interpreter

end Lox
