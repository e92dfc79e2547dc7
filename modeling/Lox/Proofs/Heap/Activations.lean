import Lox.Proofs.Heap.Shape
import Lox.Machine.Step

/-!
# Activations

A function runs in a scope of its own, which binds its parameters and stands in the scope of its declaration. There a
parameter means the argument, and every other name what it means around the function (`lookup?_activation`). A heap
grows if everything that was there is as it was (`Grows`); names mean in the scopes that were there what they meant
(`Grows.lookup?`), so a call that only adds to the heap cannot be told from the scopes of other calls.
-/

namespace Lox

open Config (bindParameters)

/-- Something that stands behind what is kept may be changed. -/
theorem Kept.modify_beyond {α : Type} {R : α → α → Prop} {xs ys : Array α} (h : Kept R xs ys) {slot : Nat}
    (hslot : xs.size ≤ slot) (f : α → α) : Kept R xs (ys.modify slot f) := by
  intro i x hx
  have hi : slot ≠ i := Nat.ne_of_gt (Nat.lt_of_lt_of_le (Array.getElem?_eq_some_iff.1 hx).1 hslot)
  rw [Array.getElem?_modify, if_neg hi]
  exact h i x hx

namespace Heap

variable {h h' h'' : Heap} {s t p : ScopeId} {x : String} {v : Value} {names : List String} {values : List Value}

/-! ## Growth -/

/-- Scopes, functions and sequences that are there are as they were. -/
structure Grows (h h' : Heap) : Prop where
  scopes : Kept Eq h.scopes h'.scopes
  functions : Kept Eq h.functions h'.functions
  sequences : Kept Eq h.sequences h'.sequences
  nested : h.Nested → h'.Nested

/-- A heap grows if nothing happens. -/
theorem Grows.refl (h : Heap) : h.Grows h :=
  ⟨.refl (fun _ => rfl) _, .refl (fun _ => rfl) _, .refl (fun _ => rfl) _, id⟩

/-- A heap that has grown may grow on. -/
theorem Grows.trans (hg : h.Grows h') (hg' : h'.Grows h'') : h.Grows h'' where
  scopes := hg.scopes.trans (fun _ _ _ => .trans) hg'.scopes
  functions := hg.functions.trans (fun _ _ _ => .trans) hg'.functions
  sequences := hg.sequences.trans (fun _ _ _ => .trans) hg'.sequences
  nested := hg'.nested ∘ hg.nested

/-- A scope that is there is as it was. -/
theorem Grows.scope (hg : h.Grows h') (hs : s.index < h.scopes.size) :
    s.index < h'.scopes.size ∧ h'.scope s = h.scope s := by
  obtain ⟨hthere, hsame⟩ := hg.scopes.getD hs default
  exact ⟨hthere, hsame.symm⟩

/-- It binds what it bound. -/
theorem Grows.own (hg : h.Grows h') (hs : s.index < h.scopes.size) (name : String) : h'.own s name = h.own s name := by
  rw [Heap.own, (hg.scope hs).2]
  rfl

/-- A function that is there is as it was. -/
theorem Grows.function (hg : h.Grows h') {f : FunctionId} (hf : f.index < h.functions.size) :
    f.index < h'.functions.size ∧ h'.function f = h.function f := by
  obtain ⟨hthere, hsame⟩ := hg.functions.getD hf default
  exact ⟨hthere, hsame.symm⟩

/-- So is a sequence. -/
theorem Grows.sequence (hg : h.Grows h') {id : SequenceId} (hid : id.index < h.sequences.size) :
    id.index < h'.sequences.size ∧ h'.sequence id = h.sequence id := by
  obtain ⟨hthere, hsame⟩ := hg.sequences.getD hid #[]
  exact ⟨hthere, hsame.symm⟩

/-- Names mean in the scopes that were there what they meant. -/
theorem Grows.lookup? (hg : h.Grows h') (hnested : h.Nested) (hs : s.index < h.scopes.size) (name : String) :
    h'.lookup? s name = h.lookup? s name := by
  refine lookup?_congr hnested (hg.nested hnested) (fun t ht => hg.own (by omega) name) fun t ht => ?_
  rw [(hg.scope (by omega)).2]

/-- A name is bound in a scope that was not there. -/
theorem Grows.define (hg : h.Grows h') (ht : h.scopes.size ≤ t.index) (name : String) (v : Value) :
    h.Grows (h'.define t name v) :=
  ⟨hg.scopes.modify_beyond ht _, hg.functions, hg.sequences, fun hnested => (hg.nested hnested).define⟩

/-- Names are bound in a scope that was not there. -/
theorem Grows.bindParameters (ht : h.scopes.size ≤ t.index) : ∀ (names : List String) (values : List Value) {h' : Heap},
    h.Grows h' → h.Grows (bindParameters h' t names values)
  | [], _, _, hg => hg
  | _ :: _, [], _, hg => hg
  | name :: names, v :: values, _, hg => bindParameters ht names values (hg.define ht name v)

/-- A scope is added inside one that is there. -/
theorem Grows.newScope (hg : h.Grows h') (hnested : h'.Nested) (hp : p.index < h'.scopes.size) :
    h.Grows (h'.newScope (some p)).2 where
  scopes := hg.scopes.trans (fun _ _ _ => .trans) (.push (fun _ => rfl) _ _)
  functions := hg.functions
  sequences := hg.sequences
  nested _ := hnested.newScope fun _ ho => Option.some.inj ho ▸ hp

/-- A sequence is added. -/
theorem Grows.newSequence (hg : h.Grows h') (elements : Array Value) : h.Grows (h'.newSequence elements).2 :=
  ⟨hg.scopes, hg.functions, hg.sequences.trans (fun _ _ _ => .trans) (.push (fun _ => rfl) _ _), hg.nested⟩

/-- A function is added. -/
theorem Grows.newFunction (hg : h.Grows h') (closure : Closure) : h.Grows (h'.newFunction closure).2 :=
  ⟨hg.scopes, hg.functions.trans (fun _ _ _ => .trans) (.push (fun _ => rfl) _ _), hg.sequences, hg.nested⟩

/-! ## Parameters -/

/-- The argument of a parameter. Of several parameters of one name the last counts. -/
def argument? : List String → List Value → String → Option Value
  | name :: names, v :: values, x => (argument? names values x).or (if name = x then some v else none)
  | _, _, _ => none

/-- What scopes bind after parameters have been bound in one of them. -/
theorem own_bindParameters : ∀ (names : List String) (values : List Value) {h : Heap}, s.index < h.scopes.size →
    (bindParameters h s names values).own t x =
      (if t = s then argument? names values x else none).or (h.own t x)
  | [], _, _, _ => by cases Decidable.em (t = s) <;> simp [bindParameters, argument?]
  | _ :: _, [], _, _ => by cases Decidable.em (t = s) <;> simp [bindParameters, argument?]
  | name :: names, v :: values, h, hs => by
    have hs' : s.index < (h.define s name v).scopes.size := Nat.lt_of_lt_of_eq hs size_scopes_define.symm
    rw [bindParameters, own_bindParameters names values hs', own_define]
    by_cases ht : t = s
    · subst ht
      rw [if_pos rfl, if_pos rfl, argument?, Option.or_assoc]
      by_cases hname : name = x
      · rw [if_pos ⟨rfl, hname, hs⟩, if_pos hname, Option.some_or]
      · rw [if_neg fun heq => hname heq.2.1, if_neg hname, Option.none_or]
    · rw [if_neg ht, if_neg ht, if_neg fun heq => ht heq.1.symm]

/-- Parameters leave the scopes inside each other. -/
theorem parent_bindParameters : ∀ (names : List String) (values : List Value) {h : Heap},
    ((bindParameters h s names values).scope t).parent = (h.scope t).parent
  | [], _, _ => rfl
  | _ :: _, [], _ => rfl
  | name :: names, v :: values, h => by rw [bindParameters, parent_bindParameters names values, parent_define]

/-- No scope comes or goes with parameters. -/
theorem size_scopes_bindParameters : ∀ (names : List String) (values : List Value) {h : Heap},
    (bindParameters h s names values).scopes.size = h.scopes.size
  | [], _, _ => rfl
  | _ :: _, [], _ => rfl
  | name :: names, v :: values, h => by
    rw [bindParameters, size_scopes_bindParameters names values, size_scopes_define]

/-! ## Activations -/

/-- The heap in which a function runs that was declared in a scope: its own scope is new, and binds the parameters. -/
def activation (h : Heap) (p : ScopeId) (names : List String) (values : List Value) : Heap :=
  bindParameters (h.newScope (some p)).2 ⟨h.scopes.size⟩ names values

/-- A scope that is not there binds nothing. -/
theorem own_of_size_le (hs : h.scopes.size ≤ s.index) : h.own s x = none := by
  rw [own, scope, Array.getElem?_eq_none hs]
  rfl

/-- The scope of an activation binds the parameters, and the others bind what they bound. -/
theorem own_activation : (h.activation p names values).own t x =
    if t = ⟨h.scopes.size⟩ then argument? names values x else h.own t x := by
  have hnew : h.scopes.size < (h.newScope (some p)).2.scopes.size := size_scopes_newScope ▸ Nat.lt_succ_self _
  rw [activation, own_bindParameters (s := ⟨h.scopes.size⟩) names values hnew, own_newScope]
  split
  · rename_i ht
    rw [own_of_size_le (Nat.le_of_eq (congrArg ScopeId.index ht).symm), Option.or_none]
  · exact Option.none_or

/-- It stands in the scope of the declaration. -/
theorem parent_activation : ((h.activation p names values).scope t).parent =
    if t = ⟨h.scopes.size⟩ then some p else (h.scope t).parent := by
  rw [activation, parent_bindParameters, scope_newScope]
  by_cases ht : t = ⟨h.scopes.size⟩
  · rw [if_pos ht, if_pos (congrArg ScopeId.index ht)]
  · rw [if_neg ht, if_neg fun hindex => ht (by cases t; exact congrArg _ hindex)]

/-- There is one scope more. -/
theorem size_scopes_activation : (h.activation p names values).scopes.size = h.scopes.size + 1 := by
  rw [activation, size_scopes_bindParameters, size_scopes_newScope]

/-- A heap grows by an activation. -/
theorem Grows.activation (hg : h.Grows h') (hnested : h'.Nested) (hp : p.index < h'.scopes.size) (names : List String)
    (values : List Value) : h.Grows (h'.activation p names values) :=
  (hg.newScope hnested hp).bindParameters hg.scopes.size_le names values

/-- In an activation a parameter means the argument, and every other name what it means around the function. -/
theorem lookup?_activation (hnested : h.Nested) (hp : p.index < h.scopes.size) :
    (h.activation p names values).lookup? ⟨h.scopes.size⟩ x = (argument? names values x).or (h.lookup? p x) := by
  have hg : h.Grows (h.activation p names values) := (Grows.refl h).activation hnested hp names values
  rw [lookup?_eq (hg.nested hnested), own_activation, if_pos rfl, parent_activation, if_pos rfl, Option.bind_some,
    hg.lookup? hnested hp]

/-! ## Declarations of functions -/

/-- The heap in which a function has been declared in a scope. -/
def declareFunction (h : Heap) (s : ScopeId) (d : FunDecl) : Heap :=
  (h.newFunction ⟨d, s⟩).2.define s d.name (.function ⟨h.functions.size⟩)

variable {d : FunDecl}

/-- Its name is bound to it. -/
theorem own_declareFunction : (h.declareFunction s d).own t x =
    if s = t ∧ d.name = x ∧ t.index < h.scopes.size then some (.function ⟨h.functions.size⟩) else h.own t x :=
  own_define

/-- Scopes stay inside each other. -/
theorem parent_declareFunction : ((h.declareFunction s d).scope t).parent = (h.scope t).parent :=
  parent_define

/-- The nesting stays. -/
theorem Nested.declareFunction (hnested : h.Nested) : (h.declareFunction s d).Nested :=
  Nested.define (h := (h.newFunction ⟨d, s⟩).2) hnested

/-- No scope comes or goes. -/
@[simp] theorem size_scopes_declareFunction : (h.declareFunction s d).scopes.size = h.scopes.size :=
  size_scopes_define

/-- There is one function more. -/
@[simp] theorem size_functions_declareFunction : (h.declareFunction s d).functions.size = h.functions.size + 1 :=
  Array.size_push _

/-- It closes over the scope, and the others are what they were. -/
theorem function_declareFunction {f : FunctionId} :
    (h.declareFunction s d).function f = if f.index = h.functions.size then ⟨d, s⟩ else h.function f :=
  getD_push

/-- The name means the function in the scope. -/
theorem lookup?_declareFunction_self (hnested : h.Nested) (hs : s.index < h.scopes.size) :
    (h.declareFunction s d).lookup? s d.name = some (.function ⟨h.functions.size⟩) :=
  lookup?_define_self (h := (h.newFunction ⟨d, s⟩).2) hnested hs

/-- Other names mean what they meant. -/
theorem lookup?_declareFunction_of_ne (hnested : h.Nested) (hname : d.name ≠ x) :
    (h.declareFunction s d).lookup? t x = h.lookup? t x := by
  refine lookup?_congr hnested hnested.declareFunction (fun t _ => ?_) fun t _ => parent_declareFunction
  rw [own_declareFunction, if_neg fun hall => hname hall.2.1]

/-- A heap grows by a function that is declared in a scope that was not there. -/
theorem Grows.declareFunction (hg : h.Grows h') (hs : h.scopes.size ≤ s.index) (d : FunDecl) :
    h.Grows (h'.declareFunction s d) :=
  (hg.newFunction ⟨d, s⟩).define hs d.name _

end Heap

end Lox
