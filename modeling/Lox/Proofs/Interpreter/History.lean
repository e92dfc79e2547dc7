import Lox.Proofs.Interpreter.Nesting
import Lox.Proofs.Machine.Deeds

/-!
# Sessions with their past

A session is followed together with its past, the deeds that programs and the host have done so far (`ReachedBy`). Every
configuration of a session has a past (`reached_iff_exists_past`), and from one moment to a later one the heap becomes
what the deeds in between make of it (`LaterBy.becomes`). Neither the start of a task nor an edit is a deed, but for a
field that the host stores.
-/

namespace Lox

open Relation (ReflTransGen)

/-- Data become what they are by gains. -/
def Heap.Upkeep.gains : Upkeep where
  heap _ := True
  grows h h' := h.Becomes [] h'
  value _ _ := True
  refl _ := .refl
  trans hgrows hgrows' := hgrows.trans hgrows'
  inert _ := trivial
  held _ _ := trivial
  stays _ _ := trivial
  newSequence _ _ := ⟨⟨trivial, (Gain.newSequence _).once⟩, trivial⟩

namespace Interpreter

variable {usage : Usage} {i j : Interpreter} {c c' c'' : Config} {past past' past'' deeds : List Deed}

/-- What a host may do to a session without running anything, and its deed. -/
inductive EditsBy (usage : Usage) (i : Interpreter) : List Deed → Interpreter → Prop
  | define {name : String} {d : Datum} {v : Value} {i' : Interpreter} (hname : usage.name name)
      (hv : i.embed d = .ok (v, i')) : EditsBy usage i [] (i'.define name v)
  | assign {name : String} {d : Datum} {v : Value} {i' i'' : Interpreter} (hv : i.embed d = .ok (v, i'))
      (h : i'.assign name v = .ok i'') : EditsBy usage i [] i''
  | setField {object field : String} {o : InstanceId} {d : Datum} {v : Value} {i' : Interpreter}
      (ho : i.global object = .ok (.instanceObject o)) (hv : i.embed d = .ok (v, i')) :
      EditsBy usage i [.field o field v] (i'.setField o field v)
  | property {object field : String} {o : InstanceId} (ho : i.global object = .ok (.instanceObject o)) :
      EditsBy usage i [] (i.property o field).2
  | takeOutput : EditsBy usage i [] i.takeOutput.2
  | printer (refusal? : String → Option SystemError) : EditsBy usage i [] (i.atState { i.state with refusal? })

/-- One transition of a session together with its past. -/
inductive NextBy (usage : Usage) (i : Interpreter) : Config × List Deed → Config × List Deed → Prop
  | step (c : Config) (past : List Deed) : NextBy usage i (c, past) (c.step i.settings, c.deeds ++ past)
  | run {completion : Completion} {s : State} {task : Task} {c : Config} {past : List Deed} (htask : usage.task task)
      (hc : (i.atState s).Starts task c) : NextBy usage i (⟨.deliver completion, [], s⟩, past) (c, past)
  | edit {completion : Completion} {s : State} {i' : Interpreter} {past deeds : List Deed}
      (hi : (i.atState s).EditsBy usage deeds i') :
      NextBy usage i (⟨.deliver completion, [], s⟩, past) (⟨.deliver completion, [], i'.state⟩, deeds ++ past)

/-- The session goes on from a configuration and its past to later ones. -/
def LaterBy (usage : Usage) (i : Interpreter) (c : Config) (past : List Deed) (c' : Config) (past' : List Deed) :
    Prop :=
  ReflTransGen (i.NextBy usage) (c, past) (c', past')

/-- The configurations of a session, each with its past. -/
def ReachedBy (usage : Usage) (i : Interpreter) (c : Config) (past : List Deed) : Prop :=
  i.LaterBy usage i.idle [] c past

/-! ## Every session has a past -/

/-- A host may do something to a session just if it does so by some deeds. -/
theorem edits_iff : i.Edits usage j ↔ ∃ deeds, i.EditsBy usage deeds j := by
  constructor
  · intro hedit
    cases hedit with
    | define hname hv => exact ⟨_, .define hname hv⟩
    | assign hv h => exact ⟨_, .assign hv h⟩
    | setField ho hv => exact ⟨_, .setField ho hv⟩
    | property ho => exact ⟨_, .property ho⟩
    | takeOutput => exact ⟨_, .takeOutput⟩
    | printer refusal? => exact ⟨_, .printer refusal?⟩
  · rintro ⟨deeds, hedit⟩
    cases hedit with
    | define hname hv => exact .define hname hv
    | assign hv h => exact .assign hv h
    | setField ho hv => exact .setField ho hv
    | property ho => exact .property ho
    | takeOutput => exact .takeOutput
    | printer refusal? => exact .printer refusal?

/-- A past neither adds a transition nor rules one out. -/
theorem next_iff_exists_past (past : List Deed) :
    i.Next usage c c' ↔ ∃ past', i.NextBy usage (c, past) (c', past') := by
  constructor
  · intro hnext
    cases hnext with
    | step => exact ⟨_, .step c past⟩
    | run htask hstart => exact ⟨_, .run htask hstart⟩
    | edit hedit =>
      obtain ⟨deeds, hdeeds⟩ := edits_iff.1 hedit
      exact ⟨_, .edit hdeeds⟩
  · rintro ⟨past', hnext⟩
    cases hnext with
    | step => exact .step c
    | run htask hstart => exact .run htask hstart
    | edit hedit => exact .edit (edits_iff.2 ⟨_, hedit⟩)

/-- The configurations of a session are those that have a past. -/
theorem reached_iff_exists_past : i.Reached usage c ↔ ∃ past, i.ReachedBy usage c past :=
  reflTransGen_iff_exists_annotation (fun _ past _ => next_iff_exists_past past) []

/-! ## What becomes of the heap -/

/-- Where a task starts, no deed is done. -/
theorem Starts.becomes {task : Task} (hstart : i.Starts task c) : i.state.heap.Becomes [] c.state.heap := by
  cases hstart with
  | program p => exact .refl
  | statement st => cases st <;> exact .refl
  | call hf hvalues =>
    obtain ⟨heap, heap', hembed, hembeds, rfl⟩ := embeds_eq_withHeap hf hvalues
    obtain ⟨⟨-, hgrows⟩, -⟩ := Heap.Upkeep.gains.embeds trivial hembed hembeds
    exact hgrows.trans (Config.apply_becomes (s := { i.state with heap := heap' }) i.settings _ _)
  | invocation hf hvalues =>
    obtain ⟨heap, heap', hembed, hembeds, rfl⟩ := embeds_eq_withHeap hf hvalues
    obtain ⟨⟨-, hgrows⟩, -⟩ := Heap.Upkeep.gains.embeds trivial hembed hembeds
    exact hgrows.trans (Config.invoke_becomes (s := { i.state with heap := heap' }) i.settings _ _)

/-- An edit does its deed to the heap. -/
theorem EditsBy.becomes (hedit : i.EditsBy usage deeds j) : i.state.heap.Becomes deeds j.state.heap := by
  cases hedit with
  | define hname hv =>
    obtain ⟨heap, hembed, rfl⟩ := embed_eq_withHeap hv
    obtain ⟨⟨-, hgrows⟩, -⟩ := Heap.Upkeep.gains.embed trivial hembed
    exact hgrows.gain (.define _ _ _)
  | assign hv h =>
    obtain ⟨heap, hembed, rfl⟩ := embed_eq_withHeap hv
    obtain ⟨⟨-, hgrows⟩, -⟩ := Heap.Upkeep.gains.embed trivial hembed
    obtain ⟨heap', hassign, rfl⟩ := assign_eq_withHeap h
    obtain ⟨found, -, rfl⟩ := Option.map_eq_some_iff.1 hassign
    exact hgrows.gain (.define _ _ _)
  | setField ho hv =>
    obtain ⟨heap, hembed, rfl⟩ := embed_eq_withHeap hv
    obtain ⟨⟨-, hgrows⟩, -⟩ := Heap.Upkeep.gains.embed trivial hembed
    exact hgrows.deed (.field _ _ _)
  | property ho =>
    rw [property_state]
    exact Config.readProperty_becomes _ _
  | takeOutput => exact .refl
  | printer => exact .refl

/-- A transition adds deeds to the past and does them to the heap. -/
theorem NextBy.becomes (hnext : i.NextBy usage (c, past) (c', past')) :
    ∃ deeds, past' = deeds ++ past ∧ c.state.heap.Becomes deeds c'.state.heap := by
  cases hnext with
  | step => exact ⟨_, rfl, Config.step_becomes i.settings c⟩
  | run htask hstart => exact ⟨[], rfl, hstart.becomes⟩
  | edit hedit => exact ⟨_, rfl, hedit.becomes⟩

/-- From one moment to a later one, deeds are added to the past and done to the heap. -/
theorem LaterBy.becomes (hlater : i.LaterBy usage c past c' past') :
    ∃ deeds, past' = deeds ++ past ∧ c.state.heap.Becomes deeds c'.state.heap := by
  refine keeps_annotated
    (p := fun c' past' => ∃ deeds, past' = deeds ++ past ∧ c.state.heap.Becomes deeds c'.state.heap)
    ⟨[], rfl, .refl⟩ ?_ hlater
  rintro c₁ past₁ c₂ past₂ ⟨deeds, rfl, hbefore⟩ hnext
  obtain ⟨deeds', rfl, hafter⟩ := NextBy.becomes hnext
  exact ⟨deeds' ++ deeds, (List.append_assoc _ _ _).symm, hbefore.trans hafter⟩

end Interpreter

/-! ## Runs -/

/-- The deeds of a run of so many steps. -/
def Config.deedsWithin (settings : Settings) : Nat → Config → List Deed
  | 0, _ => []
  | n + 1, c => deedsWithin settings n (c.step settings) ++ c.deeds

/-- A run adds its deeds to the past. -/
theorem Interpreter.laterBy_advance {usage : Usage} {i : Interpreter} (n : Nat) (c : Config) (past : List Deed) :
    i.LaterBy usage c past (c.advance i.settings n) (c.deedsWithin i.settings n ++ past) := by
  induction n generalizing c past with
  | zero => exact .refl
  | succ n ih =>
    by_cases hfinal : c.IsFinal
    · -- Where nothing is left to do, there is nothing left to be done either.
      obtain ⟨completion, s, rfl⟩ := hfinal
      have hstay := ih ⟨.deliver completion, [], s⟩ past
      rw [Config.advance_final] at hstay ⊢
      cases completion <;> simpa [Config.deedsWithin, Config.deeds, Config.step] using hstay
    · rw [Config.advance_succ hfinal, Config.deedsWithin, List.append_assoc]
      exact .head (.step c past) (ih (c.step i.settings) (c.deeds ++ past))

end Lox
