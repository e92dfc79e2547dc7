import Mathlib.Logic.Relation
import Lox.Proofs.Heap.Rendering

/-!
# Sequences that contain themselves

A sequence shows as `[...]` at some place if and only if the value that is written contains a sequence that contains
itself. For the open sequences are those that lead from the value to the place, and each contains what is written there
(`Within`). A sequence that does not contain itself is inside none of those it contains; so these are written alike at
every place, and so is the sequence (`Renders.frame`).
-/

namespace Lox.Heap

open Relation

variable {h : Heap} {id a b : SequenceId} {v : Value} {w : Writing}

/-! ## Sequences inside sequences -/

/-- A sequence has another one, or itself, among its elements. -/
def Encloses (h : Heap) (a b : SequenceId) : Prop := .sequence b ∈ (h.sequence a).toList

/-- A value is a sequence or contains it, directly or further inside. -/
def Reaches (h : Heap) (v : Value) (b : SequenceId) : Prop := ∃ a, v = .sequence a ∧ ReflTransGen h.Encloses a b

/-- A sequence contains itself, directly or further inside. -/
def SelfContaining (h : Heap) (id : SequenceId) : Prop := TransGen h.Encloses id id

/-- What an element contains, its sequence contains. -/
theorem Reaches.of_element (hv : v ∈ (h.sequence a).toList) (hb : h.Reaches v b) : h.Reaches (.sequence a) b := by
  obtain ⟨c, rfl, hwalk⟩ := hb
  exact ⟨a, rfl, .head hv hwalk⟩

mutual

/-- A sequence that a value does not contain makes no difference to its text. -/
theorem Renders.frame {h : Heap} {path path' : List SequenceId} {v : Value} {text : String}
    (hsame : ∀ b, h.Reaches v b → (b ∈ path ↔ b ∈ path')) : Renders h path v text → Renders h path' v text
  | .label hv => .label hv
  | .elided hid => .elided ((hsame _ ⟨_, rfl, .refl⟩).1 hid)
  | .full hid hall => by
    refine .full (fun hid' => hid ((hsame _ ⟨_, rfl, .refl⟩).2 hid')) (hall.frame fun v hv b hb => ?_)
    rw [List.mem_cons, List.mem_cons, hsame b (hb.of_element hv)]

/-- A sequence that none of the values contains makes no difference to their texts. -/
theorem RendersAll.frame {h : Heap} {path path' : List SequenceId} {vs : List Value} {texts : List String}
    (hsame : ∀ v ∈ vs, ∀ b, h.Reaches v b → (b ∈ path ↔ b ∈ path')) :
    RendersAll h path vs texts → RendersAll h path' vs texts
  | .nil => .nil
  | .cons hv hvs =>
    .cons (hv.frame (hsame _ (List.mem_cons_self ..))) (hvs.frame fun v hv => hsame v (List.mem_cons_of_mem _ hv))

end

/-! ## The course of writing -/

/-- A value that is to be written, and what is written before it. -/
structure Task where
  value : Value
  writing : Writing

/-- Writing a sequence that is not open leads to each element of it, when those before it are written. -/
inductive Leads (h : Heap) : Task → Task → Prop
  | element {id : SequenceId} {v : Value} {w w' : Writing} {n position : Nat} (hid : id ∉ w.opened)
      (hv : (h.sequence id).toList[position]? = some v)
      (hbefore : writeFrom (h.write n) 0 ((h.sequence id).toList.take position) ((w.enter id).put "[") = some w') :
      Leads h ⟨.sequence id, w⟩ ⟨v, w'.separate position⟩

/-- Writing a value leads to a sequence that is open. -/
def Elides (h : Heap) (v : Value) : Prop :=
  ∃ id w, ReflTransGen h.Leads ⟨v, {}⟩ ⟨.sequence id, w⟩ ∧ id ∈ w.opened

variable {t t' : Task}

/-- The open sequences at an element are those at its sequence, and the sequence. -/
theorem Leads.opened_eq (hleads : h.Leads t t') :
    ∃ id, t.value = .sequence id ∧ t'.value ∈ (h.sequence id).toList ∧ t'.writing.opened = id :: t.writing.opened := by
  obtain @⟨id, v, w, w', n, position, hid, hv, hbefore⟩ := hleads
  obtain ⟨texts, -, rfl⟩ := (writes_write h n).writeFrom_zero hbefore
  exact ⟨id, rfl, List.mem_of_getElem? hv, Writing.opened_separate⟩

/-- Every element of a sequence that is not open is come to. -/
theorem exists_leads (hid : id ∉ w.opened) (hv : v ∈ (h.sequence id).toList) :
    ∃ w', h.Leads ⟨.sequence id, w⟩ ⟨v, w'⟩ := by
  obtain ⟨position, hv⟩ := List.mem_iff_getElem?.1 hv
  have hend : ∀ v ∈ (h.sequence id).toList.take position, ∀ w₁ : Writing, w₁.opened = id :: w.opened →
      ∃ w', h.write (h.unopened (id :: w.opened) + 1) v w₁ = some w' := by
    rintro v - w₁ hpath
    rw [← hpath]
    exact exists_write (Nat.lt_succ_self _)
  have hpath : ((w.enter id).put "[").opened = id :: w.opened := rfl
  obtain ⟨w', hbefore⟩ : ∃ w', writeFrom (h.write (h.unopened (id :: w.opened) + 1)) 0
      ((h.sequence id).toList.take position) ((w.enter id).put "[") = some w' :=
    (writes_write h _).exists_writeFrom hend hpath
  exact ⟨_, .element hid hv hbefore⟩

/-! ## Where the open sequences are -/

/-- What holds at each value that writing a value leads to: the value contains it, and the open sequences are inside
the value and around it. -/
structure Within (h : Heap) (root : Value) (t : Task) : Prop where
  reached : ∀ id, t.value = .sequence id → h.Reaches root id
  opened : ∀ a ∈ t.writing.opened, h.Reaches root a ∧ ∀ id, t.value = .sequence id → TransGen h.Encloses a id

/-- At the value itself, no sequence is open. -/
theorem Within.root (h : Heap) (root : Value) : Within h root ⟨root, {}⟩ :=
  ⟨fun id hid => ⟨id, hid, .refl⟩, nofun⟩

/-- From a sequence to its elements, the open sequences stay inside the value and around. -/
theorem Within.step {root : Value} (hwithin : Within h root t) (hleads : h.Leads t t') : Within h root t' := by
  obtain ⟨id, hid, hv, hopened⟩ := hleads.opened_eq
  obtain ⟨a, hroot, hwalk⟩ := hwithin.reached id hid
  constructor
  · intro b hb
    rw [hb] at hv
    exact ⟨a, hroot, hwalk.tail hv⟩
  · intro c hc
    rw [hopened, List.mem_cons] at hc
    -- What is open at the element is the sequence itself, or was open at the sequence.
    rcases hc with rfl | hc
    · refine ⟨⟨a, hroot, hwalk⟩, fun b hb => ?_⟩
      rw [hb] at hv
      exact .single hv
    · obtain ⟨hreaches, haround⟩ := hwithin.opened c hc
      refine ⟨hreaches, fun b hb => ?_⟩
      rw [hb] at hv
      exact (haround id hid).tail hv

/-- Wherever writing a value leads, the open sequences are inside the value and around the place. -/
theorem Within.of_leads {root : Value} (hleads : ReflTransGen h.Leads ⟨root, {}⟩ t) : Within h root t := by
  induction hleads with
  | refl => exact .root h root
  | tail _ hstep ih => exact ih.step hstep

/-! ## Elision -/

/-- While no open sequence is come to, writing leads from a sequence to all those that it contains, and what is open
stays open. -/
theorem exists_leads_of_encloses (hnone : ¬h.Elides v) (hleads : ReflTransGen h.Leads ⟨v, {}⟩ ⟨.sequence a, w⟩)
    (hwalk : ReflTransGen h.Encloses a b) :
    ∃ w', ReflTransGen h.Leads ⟨v, {}⟩ ⟨.sequence b, w'⟩ ∧ w.opened ⊆ w'.opened := by
  induction hwalk with
  | refl => exact ⟨w, hleads, List.Subset.refl _⟩
  | @tail b c _ hencloses ih =>
    obtain ⟨w₁, hreached, hsubset⟩ := ih
    have hid : b ∉ w₁.opened := fun hopen => hnone ⟨b, w₁, hreached, hopen⟩
    obtain ⟨w₂, hstep⟩ := exists_leads hid hencloses
    obtain ⟨_, hb, -, hopened⟩ := hstep.opened_eq
    refine ⟨w₂, hreached.tail hstep, fun x hx => ?_⟩
    rw [show w₂.opened = _ from hopened]
    exact List.mem_cons_of_mem _ (hsubset hx)

/-- A sequence shows as `[...]` if and only if some sequence contains itself. -/
theorem elides_iff : h.Elides v ↔ ∃ id, h.Reaches v id ∧ h.SelfContaining id := by
  constructor
  · rintro ⟨id, w, hleads, hopen⟩
    obtain ⟨hreaches, haround⟩ := (Within.of_leads hleads).opened id hopen
    exact ⟨id, hreaches, haround id rfl⟩
  · rintro ⟨id, ⟨a, rfl, hwalk⟩, hself⟩
    by_contra hnone
    -- The sequence is come to, opened, and come to again inside itself.
    obtain ⟨w₁, hfirst, -⟩ := exists_leads_of_encloses hnone .refl hwalk
    obtain ⟨b, hencloses, hback⟩ := TransGen.head'_iff.1 hself
    have hid : id ∉ w₁.opened := fun hopen => hnone ⟨id, w₁, hfirst, hopen⟩
    obtain ⟨w₂, hstep⟩ := exists_leads hid hencloses
    obtain ⟨c, hc, -, hopened⟩ := hstep.opened_eq
    obtain ⟨w₃, hagain, hsubset⟩ := exists_leads_of_encloses hnone (hfirst.tail hstep) hback
    refine hnone ⟨id, w₃, hagain, hsubset ?_⟩
    rw [show w₂.opened = _ from hopened, ← Value.sequence.inj hc]
    exact List.mem_cons_self ..

/-- A sequence that does not contain itself is not open where writing leads to it, and has its own text there. -/
theorem renders_text_of_not_selfContaining (hleads : ReflTransGen h.Leads ⟨v, {}⟩ ⟨.sequence id, w⟩)
    (hself : ¬h.SelfContaining id) : id ∉ w.opened ∧ Renders h w.opened (.sequence id) (h.text (.sequence id)) := by
  have hwithin := Within.of_leads hleads
  -- A sequence that is open here contains this one, which therefore does not contain it.
  have houtside : ∀ b, h.Reaches (.sequence id) b → b ∉ w.opened := by
    rintro b ⟨a, ha, hwalk⟩ hopen
    obtain rfl := Value.sequence.inj ha
    obtain ⟨-, haround⟩ := hwithin.opened b hopen
    exact hself (.trans_right hwalk (haround id rfl))
  refine ⟨houtside id ⟨id, rfl, .refl⟩, (h.renders_text _).frame fun b hb => ?_⟩
  exact ⟨nofun, fun hopen => absurd hopen (houtside b hb)⟩

/-- Every value has a text, whatever sequences contain one another. Writing it inside any open sequences comes to an end
once the depth exceeds the number of the other sequences; it writes the text by the path of the open ones, and leaves
these as they were. So the text of a value is its text by the empty path. From a sequence writing leads to elements
inside just this one more sequence. It leads to an open sequence, which shows as `[...]`, if and only if the value
contains a sequence that contains itself; and a sequence that does not contain itself is written with the same text
wherever it occurs. -/
theorem text_by_path (h : Heap) (v : Value) :
    (∀ w n, h.unopened w.opened < n → ∃ text, Renders h w.opened v text ∧ h.write n v w = some (w.put text)) ∧
      h.write (h.sequences.size + 1) v {} = some { text := h.text v } ∧
      (∀ text, Renders h [] v text ↔ text = h.text v) ∧
      (∀ t t', ReflTransGen h.Leads ⟨v, {}⟩ t → h.Leads t t' →
        ∃ id, t.value = .sequence id ∧ t'.writing.opened = id :: t.writing.opened) ∧
      (h.Elides v ↔ ∃ id, h.Reaches v id ∧ h.SelfContaining id) ∧
      ∀ id w, ReflTransGen h.Leads ⟨v, {}⟩ ⟨.sequence id, w⟩ → ¬h.SelfContaining id →
        id ∉ w.opened ∧
          ∀ n, h.unopened w.opened < n → h.write n (.sequence id) w = some (w.put (h.text (.sequence id))) := by
  refine ⟨fun w n => exists_renders, ?_, fun text => ?_, fun t t' _ hstep => ?_, elides_iff, fun id w hleads hself => ?_⟩
  · have hwrite := (h.renders_text v).write_eq (w := {}) h.unopened_nil_lt
    rwa [Writing.put, String.empty_append] at hwrite
  · exact ⟨fun htext => htext.unique (h.renders_text v), fun heq => heq ▸ h.renders_text v⟩
  · obtain ⟨id, hid, -, hopened⟩ := hstep.opened_eq
    exact ⟨id, hid, hopened⟩
  · obtain ⟨hid, htext⟩ := renders_text_of_not_selfContaining hleads hself
    exact ⟨hid, fun n => htext.write_eq⟩

/-- A sequence with an empty one in it twice, and between them one that contains itself. -/
theorem text_by_path_shared :
    let h : Heap := { sequences := #[#[.nil, .sequence ⟨0⟩], #[], #[.sequence ⟨1⟩, .sequence ⟨0⟩, .sequence ⟨1⟩]] }
    let w : Writing := { text := "[[], [nil, [...]], ", opened := [⟨2⟩] }
    (∃ text, Renders h [] (.sequence ⟨2⟩) text ∧ h.write 4 (.sequence ⟨2⟩) {} = some (({} : Writing).put text)) ∧
      h.text (.sequence ⟨2⟩) = "[[], [nil, [...]], []]" ∧ h.Elides (.sequence ⟨2⟩) ∧
      h.write 3 (.sequence ⟨1⟩) w = some (w.put (h.text (.sequence ⟨1⟩))) := by
  intro h w
  obtain ⟨hwrites, -, -, -, helides, halike⟩ := text_by_path h (.sequence ⟨2⟩)
  have hself : ¬h.SelfContaining ⟨1⟩ := by
    intro hself
    obtain ⟨b, hempty, -⟩ := TransGen.head'_iff.1 hself
    exact nomatch hempty
  have hbefore : writeFrom (h.write 4) 0 ((h.sequence ⟨2⟩).toList.take 2) ((({} : Writing).enter ⟨2⟩).put "[") =
      some { text := "[[], [nil, [...]]", opened := [⟨2⟩] } := rfl
  have hleads : h.Leads ⟨.sequence ⟨2⟩, {}⟩ ⟨.sequence ⟨1⟩, w⟩ := .element List.not_mem_nil rfl hbefore
  refine ⟨hwrites {} 4 (by decide), by decide, helides.2 ?_, (halike ⟨1⟩ w (.single hleads) hself).2 3 (by decide)⟩
  exact ⟨⟨0⟩, ⟨⟨2⟩, rfl, .single (.tail _ (.head _))⟩, .single (.tail _ (.head _))⟩

end Lox.Heap
