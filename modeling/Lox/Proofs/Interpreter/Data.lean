import Lox.Interpreter.Datum
import Lox.Proofs.Heap.Growth
import Lox.Proofs.Heap.Inert

/-!
# What the data of a host add

A datum becomes a value that refers to no object, or one that the heap holds already, or a new sequence of such values.
So whatever is kept by new sequences (`Upkeep`) is kept by data (`Upkeep.embed`).
-/

namespace Lox.Heap

/-- A property of heaps and one of the values in them, which is kept as heaps grow by sequences of such values. -/
structure Upkeep where
  heap : Heap → Prop
  grows : Heap → Heap → Prop
  value : Heap → Value → Prop
  refl : ∀ {h}, heap h → grows h h
  trans : ∀ {h h' h''}, grows h h' → grows h' h'' → grows h h''
  inert : ∀ {h v}, v.IsInert → value h v
  held : ∀ {h v}, heap h → h.Holds v → value h v
  stays : ∀ {h h' v}, value h v → grows h h' → value h' v
  newSequence : ∀ {h xs}, heap h → (∀ v ∈ xs, value h v) →
    (heap (h.newSequence xs).2 ∧ grows h (h.newSequence xs).2) ∧
      value (h.newSequence xs).2 (.sequence (h.newSequence xs).1)

namespace Upkeep

mutual

/-- A datum keeps what is kept. -/
theorem embed (u : Upkeep) {scope : ScopeId} : ∀ {d : Datum} {h h' : Heap} {v : Value}, u.heap h →
    h.embed scope d = .ok (v, h') → (u.heap h' ∧ u.grows h h') ∧ u.value h' v
  | .nil, _, _, _, hheap, hd => by
    obtain ⟨rfl, rfl⟩ := Prod.mk.inj (Except.ok.inj hd)
    exact ⟨⟨hheap, u.refl hheap⟩, u.inert trivial⟩
  | .boolean b, _, _, _, hheap, hd => by
    obtain ⟨rfl, rfl⟩ := Prod.mk.inj (Except.ok.inj hd)
    exact ⟨⟨hheap, u.refl hheap⟩, u.inert trivial⟩
  | .number x, _, _, _, hheap, hd => by
    obtain ⟨rfl, rfl⟩ := Prod.mk.inj (Except.ok.inj hd)
    exact ⟨⟨hheap, u.refl hheap⟩, u.inert trivial⟩
  | .string s, _, _, _, hheap, hd => by
    obtain ⟨rfl, rfl⟩ := Prod.mk.inj (Except.ok.inj hd)
    exact ⟨⟨hheap, u.refl hheap⟩, u.inert trivial⟩
  | .named name, _, _, _, hheap, hd => by
    rw [Heap.embed] at hd
    split at hd
    · rename_i w hw
      obtain ⟨rfl, rfl⟩ := Prod.mk.inj (Except.ok.inj hd)
      obtain ⟨t, ht⟩ := exists_own_of_lookup? hw
      exact ⟨⟨hheap, u.refl hheap⟩, u.held hheap (.bound ht)⟩
    · exact nomatch hd
  | .list items, _, _, _, hheap, hd => by
    rw [Heap.embed] at hd
    split at hd
    · exact nomatch hd
    · rename_i vs heap hitems
      obtain ⟨rfl, rfl⟩ := Prod.mk.inj (Except.ok.inj hd)
      obtain ⟨⟨hheap', hgrows⟩, hvs⟩ := u.embedAll hheap hitems
      obtain ⟨⟨hnew, hgrows'⟩, hsequence⟩ := u.newSequence hheap' fun v hv => hvs v (List.mem_toArray.1 hv)
      exact ⟨⟨hnew, u.trans hgrows hgrows'⟩, hsequence⟩

/-- So do several. -/
theorem embedAll (u : Upkeep) {scope : ScopeId} : ∀ {ds : List Datum} {h h' : Heap} {vs : List Value}, u.heap h →
    h.embedAll scope ds = .ok (vs, h') → (u.heap h' ∧ u.grows h h') ∧ ∀ v ∈ vs, u.value h' v
  | [], _, _, _, hheap, hd => by
    obtain ⟨rfl, rfl⟩ := Prod.mk.inj (Except.ok.inj hd)
    exact ⟨⟨hheap, u.refl hheap⟩, fun _ hv => absurd hv List.not_mem_nil⟩
  | d :: ds, _, _, _, hheap, hd => by
    rw [Heap.embedAll] at hd
    split at hd
    · exact nomatch hd
    · rename_i v heap hfirst
      obtain ⟨⟨hheap', hgrows⟩, hv⟩ := u.embed hheap hfirst
      split at hd
      · exact nomatch hd
      · rename_i vs heap' hothers
        obtain ⟨rfl, rfl⟩ := Prod.mk.inj (Except.ok.inj hd)
        obtain ⟨⟨hheap'', hgrows'⟩, hvs⟩ := u.embedAll hheap' hothers
        refine ⟨⟨hheap'', u.trans hgrows hgrows'⟩, fun w hw => ?_⟩
        rcases List.mem_cons.1 hw with rfl | hw
        · exact u.stays hv hgrows'
        · exact hvs w hw

end

/-- What is called and its arguments keep what is kept. -/
theorem embeds (u : Upkeep) {scope : ScopeId} {d : Datum} {ds : List Datum} {h h' h'' : Heap} {v : Value}
    {vs : List Value} (hheap : u.heap h) (hd : h.embed scope d = .ok (v, h'))
    (hds : h'.embedAll scope ds = .ok (vs, h'')) :
    (u.heap h'' ∧ u.grows h h'') ∧ u.value h'' v ∧ ∀ w ∈ vs, u.value h'' w := by
  obtain ⟨⟨hheap', hgrows⟩, hv⟩ := u.embed hheap hd
  obtain ⟨⟨hheap'', hgrows'⟩, hvs⟩ := u.embedAll hheap' hds
  exact ⟨⟨hheap'', u.trans hgrows hgrows'⟩, u.stays hv hgrows', hvs⟩

/-- Data add sequences and change nothing else. -/
def sequences : Upkeep where
  heap _ := True
  grows h h' := ∃ sequences, h' = { h with sequences }
  value _ _ := True
  refl _ := ⟨_, rfl⟩
  trans := by
    rintro h h' h'' ⟨xs, rfl⟩ ⟨ys, rfl⟩
    exact ⟨ys, rfl⟩
  inert _ := trivial
  held _ _ := trivial
  stays _ _ := trivial
  newSequence _ _ := ⟨⟨trivial, _, rfl⟩, trivial⟩

end Upkeep

end Lox.Heap
