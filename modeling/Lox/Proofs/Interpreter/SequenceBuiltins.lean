import Lox.Proofs.Interpreter.History

/-!
# The builtins on sequences

The builtins on sequences form an algebra of lists (`sequences_algebra`): a sequence that is not empty is its first
element and the elements of its rest, and what is appended to it comes behind its elements. What they make is a new
sequence each time (`MakesSequence`), and what becomes of a sequence later is a matter of the stores into this sequence
alone (`GoesOnAlone`). So no store into the one that was made is ever seen in the one that it was made of, nor the other
way round. Elements are copied as they are: an element that is a sequence is the same sequence in both.
-/

namespace Lox

open Config

variable {settings : Settings} {s : State} {b : Builtin} {arguments : List Value} {v : Value} {xs : Array Value}
  {id : SequenceId} {frames : List Frame}

/-! ## Later moments -/

/-- Whatever happens from a heap on, in whatever session, what becomes of a sequence is what the stores into it make of
it. Without such a store it stays as it is. -/
def Heap.GoesOnAlone (h : Heap) (id : SequenceId) : Prop :=
  ∀ (usage : Usage) (i : Interpreter) (c c' : Config) (past past' : List Deed), c.state.heap = h →
    i.LaterBy usage c past c' past' → ∃ deeds, past' = deeds ++ past ∧
      c'.state.heap.sequence id = Deed.elements deeds id (h.sequence id) ∧
      ((∀ slot v, .element id slot v ∉ deeds) → c'.state.heap.sequence id = h.sequence id)

/-- A sequence that is there goes on alone. -/
theorem Heap.goesOnAlone {h : Heap} (hid : id.index < h.sequences.size) : h.GoesOnAlone id := by
  rintro usage i c c' past past' rfl hlater
  obtain ⟨deeds, hpast, hbecomes⟩ := hlater.becomes
  have helements := (hbecomes.elements hid).2
  exact ⟨deeds, hpast, helements, fun hdeeds => helements.trans (Deed.elements_of_forall hdeeds _)⟩

/-! ## Answers -/

/-- A builtin that answers a value and does not read the clock leaves the state as it is. -/
theorem invoke_value (hrun : b.run (settings.clock s.readings) arguments s.heap = .ok (.value v)) (hb : b ≠ .now) :
    invoke settings (.builtin b) arguments frames s = yield v frames s := by
  simp only [invoke, hrun, if_neg hb]

/-- A builtin that answers elements makes a sequence of them. -/
theorem invoke_elements (hrun : b.run (settings.clock s.readings) arguments s.heap = .ok (.elements xs)) :
    invoke settings (.builtin b) arguments frames s =
      yield (.sequence (s.heap.newSequence xs).1) frames { s with heap := (s.heap.newSequence xs).2 } := by
  simp only [invoke, hrun]

/-- A builtin that fails leaves the state as it is. -/
theorem invoke_error {e : RuntimeError} (hrun : b.run (settings.clock s.readings) arguments s.heap = .error e) :
    invoke settings (.builtin b) arguments frames s = raise e frames s := by
  simp only [invoke, hrun]

/-! ## New sequences -/

/-- A call makes a sequence of some elements. -/
structure MakesSequence (settings : Settings) (b : Builtin) (arguments : List Value) (s : State) (elements : List Value)
    (made : SequenceId) (s' : State) : Prop where
  /-- The call ends with the sequence. -/
  call : ∀ frames, invoke settings (.builtin b) arguments frames s = yield (.sequence made) frames s'
  /-- The sequence has these elements, as they are: one that is a sequence itself is the same sequence wherever it is an
  element. -/
  elements : (s'.heap.sequence made).toList = elements
  /-- It is none of those that were there before, and these are as they were. -/
  others : ∀ id : SequenceId, id.index < s.heap.sequences.size → id ≠ made ∧ s'.heap.sequence id = s.heap.sequence id
  /-- Nothing but a sequence was added. -/
  state : s' = { s with heap := { s.heap with sequences := s'.heap.sequences } }
  /-- From then on, the sequence and those that were there before go on alone. -/
  alone : ∀ id : SequenceId, id.index < s.heap.sequences.size ∨ id = made → s'.heap.GoesOnAlone id

/-- What becomes of elements that a builtin answers. -/
theorem makesSequence (hrun : b.run (settings.clock s.readings) arguments s.heap = .ok (.elements xs)) :
    MakesSequence settings b arguments s xs.toList ⟨s.heap.sequences.size⟩
      { s with heap := (s.heap.newSequence xs).2 } where
  call _ := invoke_elements hrun
  elements := by simp [Heap.newSequence, Heap.sequence]
  others id hid := by
    refine ⟨?_, (Heap.Gain.newSequence xs).sequence hid⟩
    rintro rfl
    exact Nat.lt_irrefl _ hid
  state := rfl
  alone id hid := by
    have hsize : (s.heap.newSequence xs).2.sequences.size = s.heap.sequences.size + 1 := Array.size_push _
    refine Heap.goesOnAlone (Nat.lt_of_lt_of_eq ?_ hsize.symm)
    rcases hid with hold | rfl
    · exact Nat.lt_succ_of_lt hold
    · exact Nat.lt_succ_self _

/-! ## Parts of a sequence -/

/-- The parts of a sequence of a first element and others. -/
theorem run_parts {h : Heap} {rest : List Value} (time : Float) (hid : h.sequence id = (v :: rest).toArray) :
    Builtin.first.run time [.sequence id] h = .ok (.value v) ∧
      Builtin.last.run time [.sequence id] h = .ok (.value ((v :: rest).getLast (List.cons_ne_nil v rest))) ∧
      Builtin.rest.run time [.sequence id] h = .ok (.elements rest.toArray) := by
  have hlast := List.getLast?_eq_some_getLast (List.cons_ne_nil v rest)
  refine ⟨?_, ?_, ?_⟩
  · simp [Builtin.run, Builtin.sequenceArgument, Builtin.argument, hid]
  · simp [Builtin.run, Builtin.sequenceArgument, Builtin.argument, hid, hlast]
  · simp [Builtin.run, Builtin.sequenceArgument, Builtin.argument, hid]

/-- A sequence is empty, or it has a first element and others. -/
theorem eq_empty_or_exists_cons (xs : Array Value) : xs = #[] ∨ ∃ v rest, xs = (v :: rest).toArray := by
  obtain ⟨list⟩ := xs
  cases list with
  | nil => exact .inl rfl
  | cons v rest => exact .inr ⟨v, rest, rfl⟩

/-- No value is an error. -/
theorem yield_ne_raise {e : RuntimeError} {s s' : State} : yield v frames s ≠ raise e frames s' := by
  simp [yield, raise]

/-- The parts of an empty sequence are missing. -/
theorem run_empty {h : Heap} {time : Float} (hid : h.sequence id = #[]) (hb : b ∈ [Builtin.first, .last, .rest]) :
    b.run time [.sequence id] h = .error (.emptyOperand b) := by
  simp only [List.mem_cons, List.not_mem_nil, or_false] at hb
  rcases hb with rfl | rfl | rfl <;> simp [Builtin.run, Builtin.sequenceArgument, Builtin.argument, hid]

/-! ## The algebra -/

/-- What the builtins on sequences do in a state. -/
structure SequenceAlgebra (settings : Settings) (s : State) : Prop where
  /-- The count of a sequence. -/
  len : ∀ (id : SequenceId) frames, invoke settings (.builtin .len) [.sequence id] frames s =
    yield (.number (Float.ofNat (s.heap.sequence id).size)) frames s
  /-- A sequence that is not empty has for elements its first one and then those of its rest, the last of which, or else
  the first, is its last one. The rest has one element less. -/
  parts : ∀ id : SequenceId, s.heap.sequence id ≠ #[] → ∃ first last rest made s',
    (∀ frames, invoke settings (.builtin .first) [.sequence id] frames s = yield first frames s) ∧
    (∀ frames, invoke settings (.builtin .last) [.sequence id] frames s = yield last frames s) ∧
    MakesSequence settings .rest [.sequence id] s rest made s' ∧
    (s.heap.sequence id).toList = first :: rest ∧
    (s.heap.sequence id).toList.getLast? = some last ∧
    ∀ frames, invoke settings (.builtin .len) [.sequence made] frames s' =
      yield (.number (Float.ofNat ((s.heap.sequence id).size - 1))) frames s'
  /-- The first, the last and the rest are missing just of an empty sequence. -/
  missing : ∀ b ∈ [Builtin.first, .last, .rest], ∀ (id : SequenceId) frames,
    invoke settings (.builtin b) [.sequence id] frames s = raise (.emptyOperand b) frames s ↔ s.heap.sequence id = #[]
  /-- What is appended comes behind the elements of a sequence. -/
  append : ∀ (id : SequenceId) values, ∃ made s',
    MakesSequence settings .append (.sequence id :: values) s ((s.heap.sequence id).toList ++ values) made s'
  /-- No call of a builtin changes a sequence that is there, whether it is checked before or not and however it ends. -/
  calls : ∀ (b : Builtin) arguments frames (id : SequenceId), id.index < s.heap.sequences.size →
    (invoke settings (.builtin b) arguments frames s).state.heap.sequence id = s.heap.sequence id ∧
      (apply settings (.builtin b) arguments frames s).state.heap.sequence id = s.heap.sequence id
  /-- A call that is checked goes on to the same if the number of its arguments is right and one more call is allowed. -/
  checked : ∀ (b : Builtin) arguments frames, b.arity.accepts arguments.length = true →
    s.depth < settings.maxCallDepth → apply settings (.builtin b) arguments frames s =
      invoke settings (.builtin b) arguments (.leaveCall :: frames) { s with depth := s.depth + 1 }

/-- The builtins on sequences form an algebra of lists without aliasing. In every state, for every sequence, be it an
element of itself, the parts of the sequence and what is appended to it are those of its list of elements; the parts are
missing just of the empty sequence; no call changes a sequence that is there; and what a call makes is a new sequence,
such that from then on stores into it are not seen in the old ones, nor stores into these in it. -/
theorem sequences_algebra (settings : Settings) (s : State) : SequenceAlgebra settings s where
  len id frames := invoke_value rfl (by decide)
  parts id hne := by
    obtain ⟨v, rest, hid⟩ := (eq_empty_or_exists_cons _).resolve_left hne
    obtain ⟨hfirst, hlast, hrest⟩ := run_parts (settings.clock s.readings) hid
    have hmakes := makesSequence hrest
    refine ⟨v, _, rest, _, _, fun frames => invoke_value hfirst (by decide), fun frames => invoke_value hlast (by decide),
      hmakes, by rw [hid], by rw [hid]; exact List.getLast?_eq_some_getLast _, fun frames => ?_⟩
    have hcount : (s.heap.sequence id).size - 1 = ((s.heap.newSequence rest.toArray).2.sequence
        ⟨s.heap.sequences.size⟩).size := by
      have hlength := congrArg List.length hmakes.elements
      rw [Array.length_toList] at hlength
      rw [hlength, hid]
      rfl
    rw [hcount]
    exact invoke_value rfl (by decide)
  missing b hb id frames := by
    constructor
    · intro hraise
      refine (eq_empty_or_exists_cons _).resolve_right ?_
      rintro ⟨v, rest, hid⟩
      obtain ⟨hfirst, hlast, hrest⟩ := run_parts (settings.clock s.readings) hid
      simp only [List.mem_cons, List.not_mem_nil, or_false] at hb
      rcases hb with rfl | rfl | rfl
      · exact yield_ne_raise ((invoke_value hfirst (by decide)).symm.trans hraise)
      · exact yield_ne_raise ((invoke_value hlast (by decide)).symm.trans hraise)
      · exact yield_ne_raise ((invoke_elements hrest).symm.trans hraise)
    · exact fun hid => invoke_error (run_empty hid hb)
  append id values := by
    have hrun : Builtin.append.run (settings.clock s.readings) (.sequence id :: values) s.heap =
        .ok (.elements (s.heap.sequence id ++ values.toArray)) := rfl
    have hmakes := makesSequence hrun
    rw [Array.toList_append] at hmakes
    exact ⟨_, _, hmakes⟩
  calls b arguments frames id hid :=
    ⟨((invoke_becomes settings (.builtin b) arguments).elements hid).2,
      ((apply_becomes settings (.builtin b) arguments).elements hid).2⟩
  checked b arguments frames harity hdepth := by
    simp [apply, Heap.callable?, harity, Nat.not_le.2 hdepth]

/-- A state with a sequence that is an element of itself. -/
def selfContaining : State where
  heap := { sequences := #[#[.sequence ⟨0⟩, .nil]] }
  scope := ⟨0⟩

/-- Its rest is a new sequence without it, and it contains itself as before. -/
theorem sequences_algebra_selfContaining : ∃ made s',
    MakesSequence ⟨3, fun _ => 0⟩ .rest [.sequence ⟨0⟩] selfContaining [.nil] made s' ∧
      s'.heap.sequence ⟨0⟩ = #[.sequence ⟨0⟩, .nil] ∧ s'.heap.GoesOnAlone ⟨0⟩ := by
  obtain ⟨first, last, rest, made, s', -, -, hmade, hlist, -⟩ :=
    (sequences_algebra ⟨3, fun _ => 0⟩ selfContaining).parts ⟨0⟩ (by simp [selfContaining, Heap.sequence])
  obtain ⟨-, rfl⟩ : Value.sequence ⟨0⟩ = first ∧ [Value.nil] = rest := List.cons.inj hlist
  exact ⟨made, s', hmade, (hmade.others ⟨0⟩ (by decide)).2, hmade.alone ⟨0⟩ (.inl (by decide))⟩

end Lox
