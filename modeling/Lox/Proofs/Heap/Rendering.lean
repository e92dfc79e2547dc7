import Mathlib.Data.Finset.Card
import Mathlib.Data.Finset.Range
import Lox.Value.Text

/-!
# The text of sequences

Sequences may contain one another, and themselves. The text of a value is given here by the path to it, with no account
of what was written before (`Renders`): a sequence on the path shows as `[...]`, any other one with its elements.
Writing a value leaves the open sequences as they were (`writes_write`), so that at each element the open sequences are
those of its path, and what is written is the text by the path. It comes to an end since each sequence that is opened
leaves fewer that are not open (`exists_write`).
-/

namespace Lox

/-! ## Texts under way -/

namespace Writing

variable {w : Writing} {s t : String} {position : Nat}

/-- Texts are written one after the other. -/
theorem put_put : (w.put s).put t = w.put (s ++ t) := by
  simp only [put, String.append_assoc]

/-- Nothing is written. -/
theorem put_empty : w.put "" = w := by
  simp only [put, String.append_empty]

/-- Nothing stands before the first element. -/
theorem separate_zero : w.separate 0 = w := if_neg (Nat.lt_irrefl 0)

/-- A comma stands before every further element. -/
theorem separate_succ : w.separate (position + 1) = w.put ", " := if_pos position.succ_pos

/-- The open sequences are the same at the next element. -/
theorem opened_separate : (w.separate position).opened = w.opened := by
  cases position with
  | zero => rw [separate_zero]
  | succ position => rw [separate_succ]; rfl

/-- A sequence that is opened is the one that is closed. -/
theorem leave_put_enter (id : SequenceId) : ((w.enter id).put s).leave = w.put s := rfl

end Writing

namespace Heap

variable {h : Heap} {path : List SequenceId} {id : SequenceId} {v : Value} {vs : List Value} {text : String}
  {w w' : Writing} {n position : Nat} {one : Value → Writing → Option Writing}

/-! ## The text by the path -/

mutual

/-- The text of a value inside the sequences of a path. -/
inductive Renders (h : Heap) : List SequenceId → Value → String → Prop
  | label {path : List SequenceId} {v : Value} (hv : ∀ id, v ≠ .sequence id) : Renders h path v (h.label v)
  | elided {path : List SequenceId} {id : SequenceId} (hid : id ∈ path) : Renders h path (.sequence id) "[...]"
  | full {path : List SequenceId} {id : SequenceId} {texts : List String} (hid : id ∉ path)
      (hall : RendersAll h (id :: path) (h.sequence id).toList texts) :
      Renders h path (.sequence id) ("[" ++ ", ".intercalate texts ++ "]")

/-- The texts of values inside the sequences of a path. -/
inductive RendersAll (h : Heap) : List SequenceId → List Value → List String → Prop
  | nil {path : List SequenceId} : RendersAll h path [] []
  | cons {path : List SequenceId} {v : Value} {vs : List Value} {text : String} {texts : List String}
      (hv : Renders h path v text) (hvs : RendersAll h path vs texts) : RendersAll h path (v :: vs) (text :: texts)

end

mutual

/-- There is one text at most. -/
theorem Renders.unique {h : Heap} {path : List SequenceId} {v : Value} {text text' : String} :
    Renders h path v text → Renders h path v text' → text = text'
  | .label _, .label _ => rfl
  | .label hv, .elided _ => absurd rfl (hv _)
  | .label hv, .full _ _ => absurd rfl (hv _)
  | .elided _, .label hv => absurd rfl (hv _)
  | .elided _, .elided _ => rfl
  | .elided hid, .full hid' _ => absurd hid hid'
  | .full _ _, .label hv => absurd rfl (hv _)
  | .full hid _, .elided hid' => absurd hid' hid
  | .full _ hall, .full _ hall' => by rw [hall.unique hall']

/-- There is one list of texts at most. -/
theorem RendersAll.unique {h : Heap} {path : List SequenceId} {vs : List Value} {texts texts' : List String} :
    RendersAll h path vs texts → RendersAll h path vs texts' → texts = texts'
  | .nil, .nil => rfl
  | .cons hv hvs, .cons hv' hvs' => by rw [hv.unique hv', hvs.unique hvs']

end

/-! ## What is written -/

/-- What writes values by their texts by the path, and leaves the open sequences as they were. -/
def Writes (h : Heap) (one : Value → Writing → Option Writing) : Prop :=
  ∀ v w w', one v w = some w' → ∃ text, Renders h w.opened v text ∧ w' = w.put text

/-- Elements that are not the first are written with a comma before each. -/
theorem Writes.writeFrom_succ (hone : Writes h one) (hwrite : writeFrom one (position + 1) vs w = some w') :
    ∃ texts, RendersAll h w.opened vs texts ∧ w' = w.put (String.join (texts.map (", " ++ ·))) := by
  induction vs generalizing w position with
  | nil =>
    refine ⟨[], .nil, ?_⟩
    rw [List.map_nil, String.join_nil, Writing.put_empty]
    exact (Option.some.inj hwrite).symm
  | cons v vs ih =>
    obtain ⟨w₁, hv, hvs⟩ := Option.bind_eq_some_iff.1 hwrite
    rw [Writing.separate_succ] at hv
    obtain ⟨text, htext, rfl⟩ := hone _ _ _ hv
    obtain ⟨texts, htexts, rfl⟩ := ih hvs
    refine ⟨text :: texts, .cons htext htexts, ?_⟩
    rw [Writing.put_put, Writing.put_put, List.map_cons, String.join_cons, String.append_assoc]

/-- Texts with commas between them are the first text, and the others with a comma before each. -/
theorem intercalate_cons (text : String) (texts : List String) :
    ", ".intercalate (text :: texts) = text ++ String.join (texts.map (", " ++ ·)) := by
  induction texts generalizing text with
  | nil => rw [String.intercalate_singleton, List.map_nil, String.join_nil, String.append_empty]
  | cons next texts ih =>
    rw [String.intercalate_cons_cons, ih, List.map_cons, String.join_cons, String.append_assoc, String.append_assoc]

/-- The elements of a sequence are written with commas between them. -/
theorem Writes.writeFrom_zero (hone : Writes h one) (hwrite : writeFrom one 0 vs w = some w') :
    ∃ texts, RendersAll h w.opened vs texts ∧ w' = w.put (", ".intercalate texts) := by
  cases vs with
  | nil =>
    refine ⟨[], .nil, ?_⟩
    rw [String.intercalate_nil, Writing.put_empty]
    exact (Option.some.inj hwrite).symm
  | cons v vs =>
    obtain ⟨w₁, hv, hvs⟩ := Option.bind_eq_some_iff.1 hwrite
    rw [Writing.separate_zero] at hv
    obtain ⟨text, htext, rfl⟩ := hone _ _ _ hv
    obtain ⟨texts, htexts, rfl⟩ := hone.writeFrom_succ hvs
    refine ⟨text :: texts, .cons htext htexts, ?_⟩
    rw [Writing.put_put, intercalate_cons]

/-- An open sequence is not opened again. -/
theorem write_elided (hid : id ∈ w.opened) : h.write (n + 1) (.sequence id) w = some (w.put "[...]") :=
  if_pos (List.contains_iff_mem.2 hid)

/-- A sequence that is not open is opened, and closed behind its elements. -/
theorem write_full (hid : id ∉ w.opened) :
    h.write (n + 1) (.sequence id) w =
      (writeFrom (h.write n) 0 (h.sequence id).toList ((w.enter id).put "[")).map fun w => w.leave.put "]" :=
  if_neg fun hopen => hid (List.contains_iff_mem.1 hopen)

/-- A value is written as its text by the path of the open sequences, and these are the same before and behind it. -/
theorem writes_write (h : Heap) (n : Nat) : Writes h (h.write n) := by
  induction n with
  | zero =>
    intro v w w' hwrite
    cases v with
    | sequence id => exact nomatch hwrite
    | _ => exact ⟨_, .label nofun, (Option.some.inj hwrite).symm⟩
  | succ n ih =>
    intro v w w' hwrite
    cases v with
    | sequence id =>
      by_cases hid : id ∈ w.opened
      · rw [write_elided hid] at hwrite
        exact ⟨_, .elided hid, (Option.some.inj hwrite).symm⟩
      · rw [write_full hid] at hwrite
        obtain ⟨w₁, helements, rfl⟩ := Option.map_eq_some_iff.1 hwrite
        obtain ⟨texts, htexts, rfl⟩ := ih.writeFrom_zero helements
        refine ⟨_, .full hid htexts, ?_⟩
        -- The elements have left the sequence itself as the one that was opened last.
        rw [Writing.put_put, Writing.leave_put_enter, Writing.put_put]
    | _ => exact ⟨_, .label nofun, (Option.some.inj hwrite).symm⟩

/-! ## Writing comes to an end -/

/-- How many sequences are not on a path. -/
def unopened (h : Heap) (path : List SequenceId) : Nat :=
  ((Finset.range h.sequences.size).filter fun k => ⟨k⟩ ∉ path).card

/-- When a sequence that has elements is opened, fewer are left that are not open. -/
theorem unopened_cons_lt (hid : id ∉ path) (hv : v ∈ (h.sequence id).toList) :
    h.unopened (id :: path) < h.unopened path := by
  have hrange : id.index < h.sequences.size := by
    by_contra hbeyond
    rw [sequence, Array.getElem?_eq_none (Nat.le_of_not_lt hbeyond)] at hv
    exact nomatch hv
  refine Finset.card_lt_card (Finset.ssubset_iff_of_subset ?_ |>.2 ⟨id.index, ?_, ?_⟩)
  · intro k hk
    rw [Finset.mem_filter] at hk ⊢
    exact ⟨hk.1, fun hmem => hk.2 (List.mem_cons_of_mem _ hmem)⟩
  · exact Finset.mem_filter.2 ⟨Finset.mem_range.2 hrange, hid⟩
  · exact fun hmem => (Finset.mem_filter.1 hmem).2 (List.mem_cons_self ..)

/-- No more sequences are not open than there are. -/
theorem unopened_nil_lt (h : Heap) : h.unopened [] < h.sequences.size + 1 := by
  have hle := Finset.card_filter_le (Finset.range h.sequences.size) fun k => (⟨k⟩ : SequenceId) ∉ []
  rw [Finset.card_range] at hle
  exact Nat.lt_succ_of_le hle

/-- Elements are written to the last if each of them is. -/
theorem Writes.exists_writeFrom (hone : Writes h one) (hend : ∀ v ∈ vs, ∀ w, w.opened = path → ∃ w', one v w = some w')
    (hpath : w.opened = path) : ∃ w', writeFrom one position vs w = some w' := by
  induction vs generalizing w position with
  | nil => exact ⟨w, rfl⟩
  | cons v vs ih =>
    obtain ⟨w₁, hv⟩ := hend v (List.mem_cons_self ..) (w.separate position) (Writing.opened_separate.trans hpath)
    obtain ⟨text, -, rfl⟩ := hone _ _ _ hv
    have hpath' : ((w.separate position).put text).opened = path := Writing.opened_separate.trans hpath
    obtain ⟨w', hvs⟩ := ih (fun v hv => hend v (List.mem_cons_of_mem _ hv)) hpath'
    exact ⟨w', Option.bind_eq_some_iff.2 ⟨_, hv, hvs⟩⟩

/-- Writing comes to an end if the depth is more than the number of the sequences that are not open. -/
theorem exists_write (hdepth : h.unopened w.opened < n) : ∃ w', h.write n v w = some w' := by
  induction n generalizing v w with
  | zero => exact absurd hdepth (Nat.not_lt_zero _)
  | succ n ih =>
    cases v with
    | sequence id =>
      by_cases hid : id ∈ w.opened
      · exact ⟨_, write_elided hid⟩
      · -- At the elements the sequence is open too, so that a depth of one less will do.
        have hend : ∀ v ∈ (h.sequence id).toList, ∀ w₁ : Writing, w₁.opened = id :: w.opened →
            ∃ w', h.write n v w₁ = some w' := by
          intro v hv w₁ hpath
          refine ih (Nat.lt_of_lt_of_le ?_ (Nat.le_of_lt_succ hdepth))
          rw [hpath]
          exact unopened_cons_lt hid hv
        have hpath : ((w.enter id).put "[").opened = id :: w.opened := rfl
        obtain ⟨w₁, helements⟩ : ∃ w₁, writeFrom (h.write n) 0 (h.sequence id).toList ((w.enter id).put "[") = some w₁ :=
          (writes_write h n).exists_writeFrom hend hpath
        rw [write_full hid, helements]
        exact ⟨_, rfl⟩
    | _ => exact ⟨_, rfl⟩

/-- A value is written as its text by the path. -/
theorem exists_renders (hdepth : h.unopened w.opened < n) :
    ∃ text, Renders h w.opened v text ∧ h.write n v w = some (w.put text) := by
  obtain ⟨w', hwrite⟩ := exists_write hdepth
  obtain ⟨text, htext, rfl⟩ := writes_write h n _ _ _ hwrite
  exact ⟨text, htext, hwrite⟩

/-- What is written is the text by the path. -/
theorem Renders.write_eq (htext : Renders h w.opened v text) (hdepth : h.unopened w.opened < n) :
    h.write n v w = some (w.put text) := by
  obtain ⟨text', htext', hwrite⟩ := exists_renders hdepth
  rw [hwrite, htext'.unique htext]

/-- The text of a value is its text inside no sequence. -/
theorem renders_text (h : Heap) (v : Value) : Renders h [] v (h.text v) := by
  obtain ⟨text, htext, hwrite⟩ := exists_renders (w := {}) (v := v) h.unopened_nil_lt
  have heq : h.text v = text := by
    rw [Heap.text, hwrite]
    exact String.empty_append
  rw [heq]
  exact htext

end Heap

end Lox
