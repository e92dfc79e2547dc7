import Mathlib.Logic.Relation
import Lox.Proofs.Heap.Ancestors
import Lox.Proofs.Heap.Scopes

/-!
# Walks end

A walk outwards looks at one thing after another until something is found or nothing is left to look at (`Walk`).
Nothing bounds its length. But where every scope is younger than the one around it, and every class younger than its
parent, such a walk ends, and what it finds is what the bounded walks of the heap find (`walk_locate?`,
`walk_findMethod?`).
-/

namespace Lox

open Relation (TransGen)

/-- A walk from one to the next, until something is found or there is no next one, and what it ends with. -/
inductive Walk {α β : Type} (find : α → Option β) (next : α → Option α) : α → Option β → Prop
  | found {a : α} {b : β} (hfind : find a = some b) : Walk find next a (some b)
  | onwards {a a' : α} {r : Option β} (hfind : find a = none) (hnext : next a = some a')
      (hrest : Walk find next a' r) : Walk find next a r
  | nowhere {a : α} (hfind : find a = none) (hnext : next a = none) : Walk find next a none

/-- A walk ends in one way only. -/
theorem Walk.unique {α β : Type} {find : α → Option β} {next : α → Option α} {a : α} {r r' : Option β}
    (h : Walk find next a r) (h' : Walk find next a r') : r' = r := by
  induction h with
  | found hfind =>
    cases h' with
    | found hfind' => exact hfind'.symm.trans hfind
    | onwards hnone => exact nomatch hnone.symm.trans hfind
    | nowhere hnone => exact nomatch hnone.symm.trans hfind
  | onwards hfind hnext _ ih =>
    cases h' with
    | found hfind' => exact nomatch hfind'.symm.trans hfind
    | onwards _ hnext' hrest' =>
      obtain rfl := Option.some.inj (hnext'.symm.trans hnext)
      exact ih hrest'
    | nowhere _ hnext' => exact nomatch hnext'.symm.trans hnext
  | nowhere hfind hnext =>
    cases h' with
    | found hfind' => exact nomatch hfind'.symm.trans hfind
    | onwards _ hnext' => exact nomatch hnext'.symm.trans hnext
    | nowhere => rfl

/-- What a walk ends with is the one thing that any walk from there ends with. -/
theorem Walk.iff_eq {α β : Type} {find : α → Option β} {next : α → Option α} {a : α} {r : Option β}
    (h : Walk find next a r) (r' : Option β) : Walk find next a r' ↔ r' = r :=
  ⟨h.unique, fun heq => heq ▸ h⟩

/-- What a walk finds that looks at images is the image of what a walk finds that looks at the things themselves. -/
theorem Walk.exists_of_map {α β γ : Type} {find : α → Option β} {f : β → γ} {next : α → Option α} {a : α}
    {r : Option γ} (h : Walk (fun a => (find a).map f) next a r) : ∃ r', Walk find next a r' ∧ r = r'.map f := by
  induction h with
  | found hfind =>
    obtain ⟨b, hb, rfl⟩ := Option.map_eq_some_iff.1 hfind
    exact ⟨some b, .found hb, rfl⟩
  | onwards hfind hnext _ ih =>
    obtain ⟨r', hr', rfl⟩ := ih
    exact ⟨r', .onwards (Option.map_eq_none_iff.1 hfind) hnext hr', rfl⟩
  | nowhere hfind hnext => exact ⟨none, .nowhere (Option.map_eq_none_iff.1 hfind) hnext, rfl⟩

/-- What a walk finds is found somewhere. -/
theorem Walk.exists_find {α β : Type} {find : α → Option β} {next : α → Option α} {a : α} {r : Option β} {b : β}
    (h : Walk find next a r) (hr : r = some b) : ∃ a', find a' = some b := by
  induction h with
  | @found a b' hfind => exact ⟨a, hfind.trans hr⟩
  | onwards _ _ _ ih => exact ih hr
  | nowhere => cases hr

/-- Nothing comes back to itself on a way on which some number falls. -/
theorem not_transGen_self_of_lt {α : Type} {R : α → α → Prop} (rank : α → Nat)
    (hR : ∀ a a', R a a' → rank a' < rank a) (a : α) : ¬TransGen R a a := by
  have hfalls : ∀ a', TransGen R a a' → rank a' < rank a := by
    intro a' ha'
    induction ha' with
    | single h => exact hR _ _ h
    | tail _ h ih => exact Nat.lt_trans (hR _ _ h) ih
  exact fun ha => Nat.lt_irrefl _ (hfalls a ha)

namespace Heap

variable {h : Heap}

/-- What a scope binds a name to, together with the scope. -/
def ownAt (h : Heap) (name : String) (s : ScopeId) : Option (ScopeId × Value) :=
  (h.own s name).map (Prod.mk s)

/-- What a walk of so many scopes finds is what a walk finds that is not bounded, if there are scopes enough. -/
theorem walk_locateWithin (hnested : h.Nested) (name : String) : ∀ {n : Nat} {s : ScopeId}, s.index < n →
    Walk (h.ownAt name) (fun s => (h.scope s).parent) s (h.locateWithin name n s)
  | 0, _, hn => absurd hn (Nat.not_lt_zero _)
  | n + 1, s, hn => by
    unfold locateWithin
    cases hown : (h.scope s).bindings.find? name with
    | some v =>
      have hfound : h.ownAt name s = some (s, v) := by rw [ownAt, own, hown, Option.map_some]
      exact .found hfound
    | none =>
      have hnone : h.ownAt name s = none := by rw [ownAt, own, hown, Option.map_none]
      cases hparent : (h.scope s).parent with
      | none => exact .nowhere hnone hparent
      | some p =>
        have holder := hnested s p hparent
        exact .onwards hnone hparent (walk_locateWithin hnested name (by omega))

/-- The walk outwards from a scope ends with the nearest scope that binds a name, if there is one. -/
theorem walk_locate? (hnested : h.Nested) (s : ScopeId) (name : String) :
    Walk (h.ownAt name) (fun s => (h.scope s).parent) s (h.locate? s name) :=
  walk_locateWithin hnested name (Nat.lt_succ_self _)

/-- What a walk of so many classes finds is what a walk finds that is not bounded, if there are classes enough. -/
theorem walk_findMethodWithin (hparents : h.ParentsFirst) (name : String) : ∀ {n : Nat} {c : ClassId}, c.index < n →
    Walk (fun c => (h.classOf c).methods.find? name) (fun c => (h.classOf c).parent) c (h.findMethodWithin name n c)
  | 0, _, hn => absurd hn (Nat.not_lt_zero _)
  | n + 1, c, hn => by
    unfold findMethodWithin
    cases hmethod : (h.classOf c).methods.find? name with
    | some f => exact .found hmethod
    | none =>
      cases hparent : (h.classOf c).parent with
      | none => exact .nowhere hmethod hparent
      | some p =>
        have holder := hparents c p hparent
        exact .onwards hmethod hparent (walk_findMethodWithin hparents name (by omega))

/-- The walk from a class to its ancestors ends with the nearest method of a name, if there is one. -/
theorem walk_findMethod? (hparents : h.ParentsFirst) (c : ClassId) (name : String) :
    Walk (fun c => (h.classOf c).methods.find? name) (fun c => (h.classOf c).parent) c (h.findMethod? c name) :=
  walk_findMethodWithin hparents name (Nat.lt_succ_self _)

/-- A scope that stands in another is there. -/
theorem index_lt_of_scope_parent {s p : ScopeId} (hp : (h.scope s).parent = some p) : s.index < h.scopes.size := by
  rcases Nat.lt_or_ge s.index h.scopes.size with hlt | hge
  · exact hlt
  · have hnone : (h.scope s).parent = none := by
      rw [scope, Array.getElem?_eq_none hge]
      rfl
    cases hnone.symm.trans hp

/-- A class that has a parent is there. -/
theorem index_lt_of_class_parent {c p : ClassId} (hp : (h.classOf c).parent = some p) : c.index < h.classes.size := by
  rcases Nat.lt_or_ge c.index h.classes.size with hlt | hge
  · exact hlt
  · have hnone : (h.classOf c).parent = none := by
      rw [classOf, Array.getElem?_eq_none hge]
      rfl
    cases hnone.symm.trans hp

end Heap

end Lox
