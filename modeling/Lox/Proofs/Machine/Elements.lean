import Lox.Proofs.Heap.Positions
import Lox.Proofs.Machine.Deeds
import Lox.Proofs.Machine.Evaluation

/-!
# Reads and writes of elements

What `xs[i]` and `xs[i] = v` do, whatever the expressions in them do: `ReadsElement` and `WritesElement` list the ways
in which they end, in terms of how their parts end, and they end in these ways only. The position is checked against the
sequence as it is when all parts have been evaluated, so no step reads or writes outside of a sequence
(`step_elementPosition`, `step_updateValue`). `indexing_safe` puts this together with the laws of arrays.
-/

namespace Lox

open Config

variable {settings : Settings} {object position value : Expr} {s s' : State} {completion : Completion}
  {frames : List Frame} {id : SequenceId} {p v : Value}

/-! ## The steps that reach into a sequence -/

namespace Config

/-- The step that reads an element reads a slot of the sequence, or it raises what the check of the position says. -/
theorem step_elementPosition (settings : Settings) (frames : List Frame) (s : State) (id : SequenceId) (p : Value) :
    (∃ (n : Nat) (hn : n < (s.heap.sequence id).size), p.IsWhole n ∧
      step settings ⟨.deliver (.value p), .elementPosition id :: frames, s⟩ =
        yield (s.heap.sequence id)[n] frames s) ∨
    ∃ e, s.heap.Checked id p (.error e) ∧
      step settings ⟨.deliver (.value p), .elementPosition id :: frames, s⟩ = raise e frames s := by
  have hstep : step settings ⟨.deliver (.value p), .elementPosition id :: frames, s⟩ =
      settle ((s.heap.slot id p).map fun slot => (s.heap.sequence id)[slot]?.getD .nil) frames s := rfl
  cases hslot : s.heap.slot id p with
  | ok n =>
    obtain ⟨hp, hn⟩ := Heap.slot_eq_ok_iff.1 hslot
    refine .inl ⟨n, hn, hp, ?_⟩
    rw [hstep, hslot, Except.map, Array.getElem?_eq_getElem hn]
    rfl
  | error e =>
    refine .inr ⟨e, Heap.slot_iff.1 hslot, ?_⟩
    rw [hstep, hslot]
    rfl

/-- The step that writes an element writes a slot of the sequence, or it raises what the check of the position says. -/
theorem step_updateValue (settings : Settings) (frames : List Frame) (s : State) (id : SequenceId) (p v : Value) :
    (∃ n < (s.heap.sequence id).size, p.IsWhole n ∧
      step settings ⟨.deliver (.value v), .updateValue id p :: frames, s⟩ =
        yield v frames { s with heap := s.heap.setElement id n v }) ∨
    ∃ e, s.heap.Checked id p (.error e) ∧
      step settings ⟨.deliver (.value v), .updateValue id p :: frames, s⟩ = raise e frames s := by
  cases hslot : s.heap.slot id p with
  | ok n =>
    obtain ⟨hp, hn⟩ := Heap.slot_eq_ok_iff.1 hslot
    exact .inl ⟨n, hn, hp, by simp only [step, resume, hslot]⟩
  | error e => exact .inr ⟨e, Heap.slot_iff.1 hslot, by simp only [step, resume, hslot]⟩

/-- The next step of a configuration stores into a slot of a sequence, if the sequence has it. -/
def Stores (id : SequenceId) (n : Nat) (c : Config) : Prop :=
  ∃ (v p : Value) (frames : List Frame) (s : State),
    c = ⟨.deliver (.value v), .updateValue id p :: frames, s⟩ ∧ p.IsWhole n

/-- A deed that stores into a slot is such a step. -/
theorem stores_of_mem_deeds {c : Config} {n : Nat} (h : .element id n v ∈ c.deeds) : c.Stores id n := by
  obtain ⟨focus, frames, s⟩ := c
  unfold deeds at h
  split at h
  · rename_i hfocus hframes
    obtain rfl := hfocus
    obtain rfl := hframes
    split at h
    · rename_i hslot
      simp only [List.mem_singleton, Deed.element.injEq] at h
      obtain ⟨rfl, rfl, rfl⟩ := h
      exact ⟨_, _, _, _, rfl, (Heap.slot_eq_ok_iff.1 hslot).1⟩
    · simp at h
  · simp at h
  · simp [Heap.declaration] at h
  · split at h
    · simp [Heap.declaration] at h
    · simp at h
  · simp at h

/-- A step that does not store into a slot leaves it as it is. -/
theorem step_keeps_slot (settings : Settings) {c : Config} {n : Nat} (hid : id.index < c.state.heap.sequences.size)
    (h : ¬c.Stores id n) :
    id.index < (step settings c).state.heap.sequences.size ∧
      ((step settings c).state.heap.sequence id)[n]? = (c.state.heap.sequence id)[n]? := by
  obtain ⟨hthere, helements⟩ := (step_becomes settings c).elements hid
  exact ⟨hthere, helements ▸ Deed.getElem?_elements fun v hmem => h (stores_of_mem_deeds hmem)⟩

/-- A run of which no step stores into a slot leaves it as it is. -/
theorem advance_keeps_slot (settings : Settings) {c : Config} {n k : Nat} (hid : id.index < c.state.heap.sequences.size)
    (h : ∀ m < k, ¬(c.advance settings m).Stores id n) :
    id.index < (c.advance settings k).state.heap.sequences.size ∧
      ((c.advance settings k).state.heap.sequence id)[n]? = (c.state.heap.sequence id)[n]? := by
  induction k with
  | zero => exact ⟨hid, rfl⟩
  | succ k ih =>
    obtain ⟨hthere, hslot⟩ := ih fun m hm => h m (Nat.lt_succ_of_lt hm)
    rw [advance_succ_last]
    obtain ⟨hthere', hslot'⟩ := step_keeps_slot settings hthere (h k (Nat.lt_succ_self k))
    exact ⟨hthere', hslot'.trans hslot⟩

end Config

/-! ## Reads -/

/-- How the read of an element ends. -/
inductive ReadsElement (settings : Settings) (object position : Expr) (s : State) : Completion → State → Prop
  /-- The object comes to no value. -/
  | objectEnds {completion : Completion} {s' : State} (hvalue : ∀ v, completion ≠ .value v)
    (hobject : Evaluates settings object s completion s') : ReadsElement settings object position s completion s'
  /-- The object is no sequence; the position is not looked at. -/
  | noSequence {v : Value} {s' : State} (hv : ∀ id, v ≠ .sequence id)
    (hobject : Evaluates settings object s (.value v) s') :
    ReadsElement settings object position s (.error (.type (.elementOf v.kind))) s'
  /-- The position comes to no value. -/
  | positionEnds {id : SequenceId} {completion : Completion} {s₁ s' : State} (hvalue : ∀ v, completion ≠ .value v)
    (hobject : Evaluates settings object s (.value (.sequence id)) s₁)
    (hposition : Evaluates settings position s₁ completion s') : ReadsElement settings object position s completion s'
  /-- The position is no slot of the sequence as it is after the position was evaluated. -/
  | refused {id : SequenceId} {p : Value} {e : RuntimeError} {s₁ s' : State}
    (hobject : Evaluates settings object s (.value (.sequence id)) s₁)
    (hposition : Evaluates settings position s₁ (.value p) s') (hp : s'.heap.Checked id p (.error e)) :
    ReadsElement settings object position s (.error e) s'
  /-- The position is a slot, and what is in it is read. -/
  | read {id : SequenceId} {p : Value} {n : Nat} {s₁ s' : State}
    (hobject : Evaluates settings object s (.value (.sequence id)) s₁)
    (hposition : Evaluates settings position s₁ (.value p) s') (hp : p.IsWhole n)
    (hn : n < (s'.heap.sequence id).size) : ReadsElement settings object position s (.value (s'.heap.sequence id)[n]) s'

/-- What is no sequence has no elements to read. -/
theorem resume_elementOwner_of_ne (hv : ∀ id, v ≠ .sequence id) :
    resume settings (.elementOwner position) v [] s = raise (.type (.elementOf v.kind)) [] s := by
  cases v with
  | sequence id => exact absurd rfl (hv id)
  | _ => rfl

/-- What is made of a position that is read. -/
theorem finishes_elementPosition : (resume settings (.elementPosition id) p [] s).Finishes settings completion s' ↔
    (∃ e, s.heap.Checked id p (.error e) ∧ completion = .error e ∧ s' = s) ∨
      ∃ (n : Nat) (hn : n < (s.heap.sequence id).size), p.IsWhole n ∧ completion = .value (s.heap.sequence id)[n] ∧
        s' = s := by
  have hstep : resume settings (.elementPosition id) p [] s =
      step settings ⟨.deliver (.value p), .elementPosition id :: [], s⟩ := rfl
  rw [hstep]
  rcases step_elementPosition settings [] s id p with ⟨n, hn, hp, heq⟩ | ⟨e, he, heq⟩ <;> rw [heq]
  · refine finishes_final.trans ⟨fun ⟨hvalue, hs⟩ => .inr ⟨n, hn, hp, hvalue, hs⟩, ?_⟩
    rintro (⟨e, he, -, -⟩ | ⟨m, hm, hp', hvalue, hs⟩)
    · exact nomatch he.slot_eq.symm.trans (Heap.Checked.slot hp hn).slot_eq
    · obtain rfl : m = n := Int.ofNat_inj.1 (hp'.unique hp)
      exact ⟨hvalue, hs⟩
  · refine finishes_final.trans ⟨fun ⟨herror, hs⟩ => .inl ⟨e, he, herror, hs⟩, ?_⟩
    rintro (⟨e', he', herror, hs⟩ | ⟨m, hm, hp', -, -⟩)
    · obtain rfl := Except.error.inj (he'.slot_eq.symm.trans he.slot_eq)
      exact ⟨herror, hs⟩
    · exact nomatch he.slot_eq.symm.trans (Heap.Checked.slot hp' hm).slot_eq

/-- The read of an element ends in the ways that are listed, and in no other. -/
theorem evaluates_index_iff :
    Evaluates settings (.index object position) s completion s' ↔
      ReadsElement settings object position s completion s' := by
  rw [evaluates_iff]
  refine (finishes_evaluate fun _ _ _ => rfl).trans ?_
  constructor
  · rintro (⟨v, s₁, hobject, hrest⟩ | ⟨hvalue, hobject⟩)
    · by_cases hv : ∃ id, v = .sequence id
      · obtain ⟨id, rfl⟩ := hv
        rcases (finishes_evaluate fun _ _ _ => rfl).1 hrest with ⟨p, s₂, hposition, hcheck⟩ | ⟨hvalue, hposition⟩
        · obtain ⟨e, he, rfl, rfl⟩ | ⟨n, hn, hp, rfl, rfl⟩ := finishes_elementPosition.1 hcheck
          · exact .refused hobject hposition he
          · exact .read hobject hposition hp hn
        · exact .positionEnds hvalue hobject hposition
      · rw [not_exists] at hv
        rw [resume_elementOwner_of_ne hv] at hrest
        obtain ⟨rfl, rfl⟩ := finishes_final.1 hrest
        exact .noSequence hv hobject
    · exact .objectEnds hvalue hobject
  · intro h
    cases h with
    | objectEnds hvalue hobject => exact .inr ⟨hvalue, hobject⟩
    | noSequence hv hobject =>
      refine .inl ⟨_, _, hobject, ?_⟩
      rw [resume_elementOwner_of_ne hv]
      exact finishes_final.2 ⟨rfl, rfl⟩
    | positionEnds hvalue hobject hposition =>
      exact .inl ⟨_, _, hobject, (finishes_evaluate fun _ _ _ => rfl).2 (.inr ⟨hvalue, hposition⟩)⟩
    | refused hobject hposition hp =>
      refine .inl ⟨_, _, hobject, (finishes_evaluate fun _ _ _ => rfl).2 (.inl ⟨_, _, hposition, ?_⟩)⟩
      exact finishes_elementPosition.2 (.inl ⟨_, hp, rfl, rfl⟩)
    | read hobject hposition hp hn =>
      refine .inl ⟨_, _, hobject, (finishes_evaluate fun _ _ _ => rfl).2 (.inl ⟨_, _, hposition, ?_⟩)⟩
      exact finishes_elementPosition.2 (.inr ⟨_, hn, hp, rfl, rfl⟩)

/-! ## Writes -/

/-- How the write of an element ends. -/
inductive WritesElement (settings : Settings) (object position value : Expr) (s : State) : Completion → State → Prop
  /-- The object comes to no value. -/
  | objectEnds {completion : Completion} {s' : State} (hvalue : ∀ v, completion ≠ .value v)
    (hobject : Evaluates settings object s completion s') :
    WritesElement settings object position value s completion s'
  /-- The object is no sequence; neither the position nor the value is looked at. -/
  | noSequence {v : Value} {s' : State} (hv : ∀ id, v ≠ .sequence id)
    (hobject : Evaluates settings object s (.value v) s') :
    WritesElement settings object position value s (.error (.type (.elementOf v.kind))) s'
  /-- The position comes to no value. -/
  | positionEnds {id : SequenceId} {completion : Completion} {s₁ s' : State} (hvalue : ∀ v, completion ≠ .value v)
    (hobject : Evaluates settings object s (.value (.sequence id)) s₁)
    (hposition : Evaluates settings position s₁ completion s') :
    WritesElement settings object position value s completion s'
  /-- The value to be written comes to no value. -/
  | valueEnds {id : SequenceId} {p : Value} {completion : Completion} {s₁ s₂ s' : State}
    (hvalue : ∀ v, completion ≠ .value v) (hobject : Evaluates settings object s (.value (.sequence id)) s₁)
    (hposition : Evaluates settings position s₁ (.value p) s₂) (hwritten : Evaluates settings value s₂ completion s') :
    WritesElement settings object position value s completion s'
  /-- The position is no slot of the sequence as it is after everything was evaluated, and nothing is written. -/
  | refused {id : SequenceId} {p v : Value} {e : RuntimeError} {s₁ s₂ s' : State}
    (hobject : Evaluates settings object s (.value (.sequence id)) s₁)
    (hposition : Evaluates settings position s₁ (.value p) s₂) (hwritten : Evaluates settings value s₂ (.value v) s')
    (hp : s'.heap.Checked id p (.error e)) : WritesElement settings object position value s (.error e) s'
  /-- The position is a slot, and the value is written into it. -/
  | written {id : SequenceId} {p v : Value} {n : Nat} {s₁ s₂ s₃ : State}
    (hobject : Evaluates settings object s (.value (.sequence id)) s₁)
    (hposition : Evaluates settings position s₁ (.value p) s₂) (hwritten : Evaluates settings value s₂ (.value v) s₃)
    (hp : p.IsWhole n) (hn : n < (s₃.heap.sequence id).size) :
    WritesElement settings object position value s (.value v) { s₃ with heap := s₃.heap.setElement id n v }

/-- What is no sequence has no elements to write. -/
theorem resume_updateOwner_of_ne (hv : ∀ id, v ≠ .sequence id) :
    resume settings (.updateOwner position value) v [] s = raise (.type (.elementOf v.kind)) [] s := by
  cases v with
  | sequence id => exact absurd rfl (hv id)
  | _ => rfl

/-- What is made of a value that is written. -/
theorem finishes_updateValue : (resume settings (.updateValue id p) v [] s).Finishes settings completion s' ↔
    (∃ e, s.heap.Checked id p (.error e) ∧ completion = .error e ∧ s' = s) ∨
      ∃ n < (s.heap.sequence id).size, p.IsWhole n ∧ completion = .value v ∧
        s' = { s with heap := s.heap.setElement id n v } := by
  have hstep : resume settings (.updateValue id p) v [] s =
      step settings ⟨.deliver (.value v), .updateValue id p :: [], s⟩ := rfl
  rw [hstep]
  rcases step_updateValue settings [] s id p v with ⟨n, hn, hp, heq⟩ | ⟨e, he, heq⟩ <;> rw [heq]
  · refine finishes_final.trans ⟨fun ⟨hvalue, hs⟩ => .inr ⟨n, hn, hp, hvalue, hs⟩, ?_⟩
    rintro (⟨e, he, -, -⟩ | ⟨m, hm, hp', hvalue, hs⟩)
    · exact nomatch he.slot_eq.symm.trans (Heap.Checked.slot hp hn).slot_eq
    · obtain rfl : m = n := Int.ofNat_inj.1 (hp'.unique hp)
      exact ⟨hvalue, hs⟩
  · refine finishes_final.trans ⟨fun ⟨herror, hs⟩ => .inl ⟨e, he, herror, hs⟩, ?_⟩
    rintro (⟨e', he', herror, hs⟩ | ⟨m, hm, hp', -, -⟩)
    · obtain rfl := Except.error.inj (he'.slot_eq.symm.trans he.slot_eq)
      exact ⟨herror, hs⟩
    · exact nomatch he.slot_eq.symm.trans (Heap.Checked.slot hp' hm).slot_eq

/-- The write of an element ends in the ways that are listed, and in no other. -/
theorem evaluates_setIndex_iff :
    Evaluates settings (.setIndex object position value) s completion s' ↔
      WritesElement settings object position value s completion s' := by
  rw [evaluates_iff]
  refine (finishes_evaluate fun _ _ _ => rfl).trans ?_
  constructor
  · rintro (⟨v, s₁, hobject, hrest⟩ | ⟨hvalue, hobject⟩)
    · by_cases hv : ∃ id, v = .sequence id
      · obtain ⟨id, rfl⟩ := hv
        rcases (finishes_evaluate fun _ _ _ => rfl).1 hrest with ⟨p, s₂, hposition, hrest⟩ | ⟨hvalue, hposition⟩
        · rcases (finishes_evaluate fun _ _ _ => rfl).1 hrest with ⟨v, s₃, hwritten, hcheck⟩ | ⟨hvalue, hwritten⟩
          · obtain ⟨e, he, rfl, rfl⟩ | ⟨n, hn, hp, rfl, rfl⟩ := finishes_updateValue.1 hcheck
            · exact .refused hobject hposition hwritten he
            · exact .written hobject hposition hwritten hp hn
          · exact .valueEnds hvalue hobject hposition hwritten
        · exact .positionEnds hvalue hobject hposition
      · rw [not_exists] at hv
        rw [resume_updateOwner_of_ne hv] at hrest
        obtain ⟨rfl, rfl⟩ := finishes_final.1 hrest
        exact .noSequence hv hobject
    · exact .objectEnds hvalue hobject
  · intro h
    cases h with
    | objectEnds hvalue hobject => exact .inr ⟨hvalue, hobject⟩
    | noSequence hv hobject =>
      refine .inl ⟨_, _, hobject, ?_⟩
      rw [resume_updateOwner_of_ne hv]
      exact finishes_final.2 ⟨rfl, rfl⟩
    | positionEnds hvalue hobject hposition =>
      exact .inl ⟨_, _, hobject, (finishes_evaluate fun _ _ _ => rfl).2 (.inr ⟨hvalue, hposition⟩)⟩
    | valueEnds hvalue hobject hposition hwritten =>
      refine .inl ⟨_, _, hobject, (finishes_evaluate fun _ _ _ => rfl).2 (.inl ⟨_, _, hposition, ?_⟩)⟩
      exact (finishes_evaluate fun _ _ _ => rfl).2 (.inr ⟨hvalue, hwritten⟩)
    | refused hobject hposition hwritten hp =>
      refine .inl ⟨_, _, hobject, (finishes_evaluate fun _ _ _ => rfl).2 (.inl ⟨_, _, hposition, ?_⟩)⟩
      refine (finishes_evaluate fun _ _ _ => rfl).2 (.inl ⟨_, _, hwritten, ?_⟩)
      exact finishes_updateValue.2 (.inl ⟨_, hp, rfl, rfl⟩)
    | written hobject hposition hwritten hp hn =>
      refine .inl ⟨_, _, hobject, (finishes_evaluate fun _ _ _ => rfl).2 (.inl ⟨_, _, hposition, ?_⟩)⟩
      refine (finishes_evaluate fun _ _ _ => rfl).2 (.inl ⟨_, _, hwritten, ?_⟩)
      exact finishes_updateValue.2 (.inr ⟨_, hn, hp, rfl, rfl⟩)

/-! ## Safety and the laws of arrays -/

/-- What has been written into a slot is read through whatever comes to the sequence and to the slot, if the read does
not itself store into the slot before. -/
theorem evaluates_index_of_slot {s₁ s₂ : State} {n : Nat} (hslot : (s.heap.sequence id)[n]? = some v)
    (hobject : Evaluates settings object s (.value (.sequence id)) s₁)
    (hposition : Evaluates settings position s₁ (.value p) s₂) (hp : p.IsWhole n)
    (hstores : ∀ m, ¬((⟨.evaluate (.index object position), [], s⟩ : Config).advance settings m).Stores id n) :
    Evaluates settings (.index object position) s (.value v) s₂ := by
  -- However the read ends, it ends in the state in which the position was evaluated, and there the slot is as before.
  have hkept : ∀ completion, Evaluates settings (.index object position) s completion s₂ →
      (s₂.heap.sequence id)[n]? = some v := by
    rintro completion ⟨k, hk⟩
    have hthere : id.index < s.heap.sequences.size :=
      Heap.there_of_lt_size (Array.getElem?_eq_some_iff.1 hslot).1
    have hrun := (advance_keeps_slot settings (k := k) hthere fun m _ => hstores m).2
    rw [hk] at hrun
    exact hrun.trans hslot
  by_cases hn : n < (s₂.heap.sequence id).size
  · have hread := evaluates_index_iff.2 (.read hobject hposition hp hn)
    rw [← Option.some.inj ((Array.getElem?_eq_getElem hn).symm.trans (hkept _ hread))]
    exact hread
  · have hrefused := hkept _ (evaluates_index_iff.2 (.refused hobject hposition (.outOfRange hp (by omega))))
    exact absurd (Array.getElem?_eq_some_iff.1 hrefused).1 hn

/-- Elements are read and written safely, and sequences are arrays. -/
structure SafeIndexing (settings : Settings) : Prop where
  /-- The check of a position comes to a slot for the whole numbers in range and for nothing else, and otherwise to the
  error for what the position is. -/
  check : ∀ (h : Heap) (id : SequenceId) (p : Value) (r : Except RuntimeError Nat), h.slot id p = r ↔ h.Checked id p r
  /-- Where an element is read, the slot is below the length at that time. -/
  readStep : ∀ (frames : List Frame) (s : State) (id : SequenceId) (p : Value),
    (∃ (n : Nat) (hn : n < (s.heap.sequence id).size), p.IsWhole n ∧
      step settings ⟨.deliver (.value p), .elementPosition id :: frames, s⟩ =
        yield (s.heap.sequence id)[n] frames s) ∨
    ∃ e, s.heap.Checked id p (.error e) ∧
      step settings ⟨.deliver (.value p), .elementPosition id :: frames, s⟩ = raise e frames s
  /-- Where an element is written, too. If the position is refused, nothing is changed. -/
  writeStep : ∀ (frames : List Frame) (s : State) (id : SequenceId) (p v : Value),
    (∃ n < (s.heap.sequence id).size, p.IsWhole n ∧
      step settings ⟨.deliver (.value v), .updateValue id p :: frames, s⟩ =
        yield v frames { s with heap := s.heap.setElement id n v }) ∨
    ∃ e, s.heap.Checked id p (.error e) ∧
      step settings ⟨.deliver (.value v), .updateValue id p :: frames, s⟩ = raise e frames s
  /-- A slot holds what it holds for as long as no step stores into it. -/
  slotsKept : ∀ (c : Config) (id : SequenceId) (n k : Nat), id.index < c.state.heap.sequences.size →
    (∀ m < k, ¬(c.advance settings m).Stores id n) →
      ((c.advance settings k).state.heap.sequence id)[n]? = (c.state.heap.sequence id)[n]?
  /-- A read ends in the ways listed by `ReadsElement`. -/
  reads : ∀ (object position : Expr) (s s' : State) (completion : Completion),
    Evaluates settings (.index object position) s completion s' ↔
      ReadsElement settings object position s completion s'
  /-- A write ends in the ways listed by `WritesElement`. -/
  writes : ∀ (object position value : Expr) (s s' : State) (completion : Completion),
    Evaluates settings (.setIndex object position value) s completion s' ↔
      WritesElement settings object position value s completion s'
  /-- A store obeys the laws of arrays. -/
  stores : ∀ (h : Heap) (id : SequenceId) (n : Nat) (v : Value), n < (h.sequence id).size →
    h.StoresLikeAnArray id n v (h.setElement id n v)
  /-- Whatever comes to the sequence and the slot that were just written reads the value that was written. -/
  readsBack : ∀ (object position value : Expr) (s s' : State) (v : Value),
    Evaluates settings (.setIndex object position value) s (.value v) s' →
      ∃ (s₁ s₂ s₃ : State) (id : SequenceId) (p : Value) (n : Nat),
        Evaluates settings object s (.value (.sequence id)) s₁ ∧ Evaluates settings position s₁ (.value p) s₂ ∧
        Evaluates settings value s₂ (.value v) s₃ ∧ p.IsWhole n ∧
        s₃.heap.StoresLikeAnArray id n v s'.heap ∧ s' = { s₃ with heap := s'.heap } ∧
        ∀ (object' position' : Expr) (s₄ s₅ : State) (p' : Value),
          Evaluates settings object' s' (.value (.sequence id)) s₄ → Evaluates settings position' s₄ (.value p') s₅ →
          p'.IsWhole n →
          (∀ m, ¬((⟨.evaluate (.index object' position'), [], s'⟩ : Config).advance settings m).Stores id n) →
            Evaluates settings (.index object' position') s' (.value v) s₅

/-- Elements are read and written safely, and sequences are arrays, whatever the expressions in reads and writes do. -/
theorem indexing_safe (settings : Settings) : SafeIndexing settings where
  check _ _ _ _ := Heap.slot_iff
  readStep := step_elementPosition settings
  writeStep := step_updateValue settings
  slotsKept _ _ _ _ hid hstores := (advance_keeps_slot settings hid hstores).2
  reads _ _ _ _ _ := evaluates_index_iff
  writes _ _ _ _ _ _ := evaluates_setIndex_iff
  stores _ _ _ v hn := Heap.storesLikeAnArray hn v
  readsBack object position value s s' v hwrite := by
    cases evaluates_setIndex_iff.1 hwrite with
    | objectEnds hvalue hobject => exact absurd rfl (hvalue v)
    | positionEnds hvalue hobject hposition => exact absurd rfl (hvalue v)
    | valueEnds hvalue hobject hposition hwritten => exact absurd rfl (hvalue v)
    | @written id p _ n s₁ s₂ s₃ hobject hposition hwritten hp hn =>
      have hlaws := Heap.storesLikeAnArray hn v
      exact ⟨s₁, s₂, s₃, id, p, n, hobject, hposition, hwritten, hp, hlaws, rfl,
        fun _ _ _ _ _ hobject' hposition' hp' hstores =>
          evaluates_index_of_slot hlaws.hit hobject' hposition' hp' hstores⟩

/-- The negative zero is the first slot. -/
example : (Value.number (-0.0)).IsWhole 0 :=
  Value.isWhole_number.2 (by decide +kernel)

end Lox
