import Mathlib.Logic.Relation
import Lox.Heap.Basic

/-!
# Ancestors

A class inherits from its parent and from the classes that the parent inherits from (`Inherits`). A method that a class
has is in the table of a class that it inherits from, and its ancestry lists just these classes, as long as every class
is younger than its parent.
-/

namespace Lox.Heap

open Relation (ReflTransGen)

variable {h : Heap} {c k : ClassId} {f : FunctionId} {name : String}

/-- A class is another one or inherits from it. -/
def Inherits (h : Heap) (c k : ClassId) : Prop :=
  ReflTransGen (fun c p => (h.classOf c).parent = some p) c k

/-- Every class is younger than its parent. -/
def ParentsFirst (h : Heap) : Prop :=
  ∀ c p, (h.classOf c).parent = some p → p.index < c.index

/-- A class that has a method is there. -/
theorem index_lt_of_find? (hf : (h.classOf c).methods.find? name = some f) : c.index < h.classes.size := by
  rcases Nat.lt_or_ge c.index h.classes.size with hlt | hge
  · exact hlt
  · have hnone : (h.classOf c).methods.find? name = none := by
      rw [classOf, Array.getElem?_eq_none hge]
      rfl
    exact absurd (hnone.symm.trans hf) (by simp)

/-- What is found on a walk from a class to its ancestors stands in the table of one of them. -/
theorem exists_inherits_of_findMethodWithin : ∀ {n : Nat} {c : ClassId}, h.findMethodWithin name n c = some f →
    ∃ k, h.Inherits c k ∧ (h.classOf k).methods.find? name = some f
  | 0, _, hf => nomatch hf
  | n + 1, c, hf => by
    unfold findMethodWithin at hf
    cases hmethod : (h.classOf c).methods.find? name with
    | some m =>
      simp only [hmethod, Option.some.injEq] at hf
      subst hf
      exact ⟨c, .refl, hmethod⟩
    | none =>
      simp only [hmethod] at hf
      cases hparent : (h.classOf c).parent with
      | none => simp [hparent] at hf
      | some p =>
        simp only [hparent] at hf
        obtain ⟨k, hinherits, hk⟩ := exists_inherits_of_findMethodWithin hf
        exact ⟨k, .head hparent hinherits, hk⟩

/-- What a class has under a name stands in the table of the class or of one that it inherits from. -/
theorem exists_inherits_of_findMethod? (hf : h.findMethod? c name = some f) :
    ∃ k, h.Inherits c k ∧ (h.classOf k).methods.find? name = some f :=
  exists_inherits_of_findMethodWithin hf

/-- A long enough walk from a class to its ancestors meets all classes that it inherits from. -/
theorem mem_ancestryWithin_iff (hparents : h.ParentsFirst) : ∀ {n : Nat} {c : ClassId}, c.index < n →
    (k ∈ h.ancestryWithin n c ↔ h.Inherits c k)
  | 0, _, hn => absurd hn (Nat.not_lt_zero _)
  | n + 1, c, hn => by
    rw [ancestryWithin, List.mem_cons, Inherits, ReflTransGen.cases_head_iff, eq_comm]
    refine or_congr_right ?_
    cases hparent : (h.classOf c).parent with
    | none => simp
    | some p =>
      have holder := hparents c p hparent
      have hwalk : k ∈ h.ancestryWithin n p ↔ h.Inherits p k := mem_ancestryWithin_iff hparents (by omega)
      constructor
      · intro hk
        exact ⟨p, rfl, hwalk.1 hk⟩
      · rintro ⟨q, hq, hk⟩
        obtain rfl := Option.some.inj hq
        exact hwalk.2 hk

/-- The ancestry of a class consists of the classes that it inherits from. -/
theorem mem_ancestry_iff (hparents : h.ParentsFirst) : k ∈ h.ancestry c ↔ h.Inherits c k :=
  mem_ancestryWithin_iff hparents (Nat.lt_succ_self _)

end Lox.Heap
