import Mathlib.Tactic.SplitIfs
import Lox.Heap.Builtin

/-!
# Where values come from

Operators make values that refer to no object (`Value.IsInert`), and builtins make nothing else besides handing on their
arguments and the elements of sequences. So whatever holds of such values holds of all that they answer.
-/

namespace Lox

/-- A value that refers to no object. -/
def Value.IsInert : Value → Prop
  | number _ => True
  | string _ => True
  | boolean _ => True
  | nil => True
  | builtin _ => True
  | _ => False

variable {h : Heap} {v : Value} {vs : List Value}

/-- A literal refers to no object. -/
theorem Literal.value_isInert (l : Literal) : l.value.IsInert := by
  cases l <;> trivial

/-! ## Operators -/

/-- What is made of a result refers to no object if nothing does that is made so. -/
theorem Value.isInert_of_map {α : Type} {x : Except RuntimeError α} {f : α → Value} (hx : x.map f = .ok v)
    (hf : ∀ a, (f a).IsInert) : v.IsInert := by
  cases x with
  | error e => exact nomatch hx
  | ok a => exact Except.ok.inj hx ▸ hf a

/-- The result of arithmetic is a number. -/
theorem Value.isInert_of_arithmetic {op : BinaryOp} {f : Float → Float → Except RuntimeError Float}
    {left right : Value} (hv : arithmetic op f left right = .ok v) : v.IsInert := by
  unfold arithmetic at hv
  split at hv
  · exact isInert_of_map hv fun _ => trivial
  · exact nomatch hv

/-- The result of a binary operator refers to no object. -/
theorem Heap.isInert_of_binary {op : BinaryOp} {left right : Value} (hv : h.binary op left right = .ok v) :
    v.IsInert := by
  cases op with
  | equal => exact Except.ok.inj hv ▸ trivial
  | notEqual => exact Except.ok.inj hv ▸ trivial
  | lessThan => exact Value.isInert_of_map hv fun _ => trivial
  | lessThanEqual => exact Value.isInert_of_map hv fun _ => trivial
  | greaterThan => exact Value.isInert_of_map hv fun _ => trivial
  | greaterThanEqual => exact Value.isInert_of_map hv fun _ => trivial
  | add =>
    change h.sum left right = .ok v at hv
    unfold Heap.sum at hv
    split at hv
    · exact Except.ok.inj hv ▸ trivial
    · exact Except.ok.inj hv ▸ trivial
    · exact Except.ok.inj hv ▸ trivial
    · exact nomatch hv
  | subtract => exact Value.isInert_of_arithmetic hv
  | multiply => exact Value.isInert_of_arithmetic hv
  | divide => exact Value.isInert_of_arithmetic hv

/-- The result of a unary operator refers to no object. -/
theorem Value.isInert_of_unary {op : UnaryOp} {operand : Value} (hv : operand.unary op = .ok v) : v.IsInert := by
  unfold unary at hv
  split at hv
  · exact Except.ok.inj hv ▸ trivial
  · exact Except.ok.inj hv ▸ trivial
  · exact nomatch hv

/-- What stands at a position of a sequence is an element of it; where nothing stands it is `nil`. -/
theorem Heap.isInert_or_mem_of_slot {id : SequenceId} {position : Value}
    (hv : ((h.slot id position).map fun slot => (h.sequence id)[slot]?.getD .nil) = .ok v) :
    v.IsInert ∨ v ∈ h.sequence id := by
  cases hslot : h.slot id position with
  | error e =>
    rw [hslot] at hv
    exact absurd hv (by simp [Except.map])
  | ok slot =>
    rw [hslot] at hv
    change Except.ok ((h.sequence id)[slot]?.getD .nil) = Except.ok v at hv
    cases hget : (h.sequence id)[slot]? with
    | none =>
      rw [hget] at hv
      exact .inl (Except.ok.inj hv ▸ trivial)
    | some x =>
      rw [hget] at hv
      exact .inr (Except.ok.inj hv ▸ Array.mem_of_getElem? hget)

/-! ## Builtins -/

/-- The elements of a progression are numbers. -/
theorem Number.isInert_of_mem_progressionFrom {stop step i : Int} {xs : Array Value} (hxs : ∀ v ∈ xs, v.IsInert) :
    ∀ v ∈ progressionFrom stop step i xs, v.IsInert := by
  fun_induction progressionFrom stop step i xs with
  | case1 i xs hbefore collected hfits ih =>
    refine ih fun v hv => ?_
    rcases Array.mem_push.1 hv with hv | rfl
    · exact hxs v hv
    · trivial
  | case2 i xs hbefore collected hfits =>
    intro v hv
    rcases Array.mem_push.1 hv with hv | rfl
    · exact hxs v hv
    · trivial
  | case3 i xs hafter => exact hxs

/-- The elements of a range are numbers. -/
theorem Builtin.isInert_of_mem_rangeElements {bounds : List Int} {xs : Array Value}
    (hxs : rangeElements bounds = .ok xs) : ∀ v ∈ xs, v.IsInert := by
  have hprogression (start stop step : Int) : ∀ v ∈ Number.progression start stop step, v.IsInert :=
    Number.isInert_of_mem_progressionFrom (by simp)
  unfold rangeElements at hxs
  split at hxs
  · exact Except.ok.inj hxs ▸ hprogression _ _ _
  · exact Except.ok.inj hxs ▸ hprogression _ _ _
  · split_ifs at hxs
    exact Except.ok.inj hxs ▸ hprogression _ _ _
  · exact nomatch hxs

/-- The values of an answer. -/
def Builtin.Answer.Mentions (v : Value) : Builtin.Answer → Prop
  | value w => w = v
  | elements xs => v ∈ xs

/-- What a builtin answers refers to no object, or it was an argument or an element of a sequence. -/
theorem Builtin.mentions_of_run {b : Builtin} {time : Float} {a : Builtin.Answer} (hrun : b.run time vs h = .ok a)
    (hv : a.Mentions v) : v.IsInert ∨ v ∈ vs ∨ ∃ id, v ∈ h.sequence id := by
  cases b with
  | now =>
    obtain rfl := Except.ok.inj hrun
    exact .inl (hv ▸ trivial)
  | len =>
    simp only [run] at hrun
    split at hrun
    · obtain rfl := Except.ok.inj hrun
      exact .inl (hv ▸ trivial)
    · exact nomatch hrun
  | first =>
    simp only [run] at hrun
    split at hrun
    · rename_i id _
      split at hrun
      · rename_i w hw
        obtain rfl := Except.ok.inj hrun
        exact .inr (.inr ⟨id, hv ▸ Array.mem_of_getElem? hw⟩)
      · exact nomatch hrun
    · exact nomatch hrun
  | rest =>
    simp only [run] at hrun
    split at hrun
    · rename_i id _
      split_ifs at hrun
      obtain rfl := Except.ok.inj hrun
      obtain ⟨i, hi, rfl⟩ := Array.mem_extract_iff_getElem.1 hv
      exact .inr (.inr ⟨id, Array.getElem_mem _⟩)
    · exact nomatch hrun
  | last =>
    simp only [run] at hrun
    split at hrun
    · rename_i id _
      split at hrun
      · rename_i w hw
        obtain rfl := Except.ok.inj hrun
        exact .inr (.inr ⟨id, hv ▸ Array.mem_of_back? hw⟩)
      · exact nomatch hrun
    · exact nomatch hrun
  -- The elements of the sequence come first, and then the other arguments.
  | append =>
    simp only [run] at hrun
    split at hrun
    · rename_i id _
      obtain rfl := Except.ok.inj hrun
      rcases Array.mem_append.1 hv with hv | hv
      · exact .inr (.inr ⟨id, hv⟩)
      · exact .inr (.inl (List.mem_of_mem_drop (List.mem_toArray.1 hv)))
    · exact nomatch hrun
  | str =>
    simp only [run] at hrun
    split at hrun
    · obtain rfl := Except.ok.inj hrun
      exact .inl (hv ▸ trivial)
    · exact nomatch hrun
  | range =>
    simp only [run] at hrun
    split at hrun
    · split at hrun
      · rename_i xs hxs
        obtain rfl := Except.ok.inj hrun
        exact .inl (isInert_of_mem_rangeElements hxs v hv)
      · exact nomatch hrun
    · exact nomatch hrun

end Lox
