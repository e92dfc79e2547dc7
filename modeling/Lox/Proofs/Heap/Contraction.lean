import Lox.Proofs.Machine.Grounded

/-!
# Heaps without hollow scopes

A scope that binds nothing makes no difference to what names mean in it and in the scopes inside it. One heap contracts
to another if the other lacks some scopes of this kind, the hollow ones (`Contracts`): a renaming of scopes takes each
hollow scope to the one that stands for the scope around it, and every other scope to its counterpart. All objects but
scopes are the same in both heaps, so that values mean the same there and have the same identities. Every operation of
the machine, done on both sides in scopes that are not hollow, leads from such heaps to such heaps.
-/

namespace Lox

/-- A function in a renamed scope. -/
def Closure.onto (k : ScopeId → ScopeId) (f : Closure) : Closure :=
  { f with scope := k f.scope }

namespace Heap

variable {k k' : ScopeId → ScopeId} {hollow : ScopeId → Prop} {h h' : Heap} {s t p : ScopeId} {name : String}
  {v : Value} {scopes : Array Scope}

/-- A heap with other scopes, in which the scopes of functions are renamed. -/
def onto (h : Heap) (k : ScopeId → ScopeId) (scopes : Array Scope) : Heap :=
  { h with scopes, functions := h.functions.map (Closure.onto k) }

/-- Where scopes keep their names, functions stay as they are. -/
theorem onto_id (h : Heap) (scopes : Array Scope) : h.onto id scopes = { h with scopes } := by
  have hsame : h.functions.map (Closure.onto id) = h.functions := by
    have hid : Closure.onto id = id := rfl
    rw [hid, Array.map_id]
  rw [onto, hsame]

/-! ## What does not depend on scopes -/

/-- The code of functions is the same. -/
@[simp] theorem declaration_onto (f : FunctionId) :
    ((h.onto k scopes).function f).declaration = (h.function f).declaration := by
  simp only [function, onto, Array.getElem?_map]
  cases h.functions[f.index]? <;> rfl

/-- The scope of a function is renamed; that of a function that is not there is the first one. -/
theorem function_onto (hfirst : k ⟨0⟩ = ⟨0⟩) (f : FunctionId) :
    ((h.onto k scopes).function f).scope = k (h.function f).scope := by
  simp only [function, onto, Array.getElem?_map]
  cases h.functions[f.index]? with
  | none => exact hfirst.symm
  | some closure => rfl

/-- Classes have the same methods. -/
@[simp] theorem findMethod?_onto (c : ClassId) : (h.onto k scopes).findMethod? c name = h.findMethod? c name := by
  have hwalk (n : Nat) (c : ClassId) :
      (h.onto k scopes).findMethodWithin name n c = h.findMethodWithin name n c := by
    induction n generalizing c with
    | zero => rfl
    | succ n ih =>
      have hclass : (h.onto k scopes).classOf c = h.classOf c := rfl
      simp only [findMethodWithin, hclass, ih]
  exact hwalk _ c

/-- What a value shows without what is in it is the same. -/
theorem label_onto (v : Value) : (h.onto k scopes).label v = h.label v := by
  cases v with
  | function f => simp only [label, declaration_onto]
  | boundMethod b =>
    have hbound : (h.onto k scopes).boundMethod b = h.boundMethod b := rfl
    simp only [label, declaration_onto, hbound]
  | _ => rfl

/-- Values are written alike if sequences are. -/
theorem writeBy_onto (sequence : SequenceId → Writing → Option Writing) :
    (h.onto k scopes).writeBy sequence = h.writeBy sequence := by
  funext v w
  cases v with
  | sequence id => rfl
  | _ => simp only [writeBy, label_onto]

/-- Sequences are written alike. -/
theorem writeSequence_onto (n : Nat) : (h.onto k scopes).writeSequence n = h.writeSequence n := by
  induction n with
  | zero => rfl
  | succ n ih =>
    funext id w
    have hsequence : (h.onto k scopes).sequence id = h.sequence id := rfl
    simp only [writeSequence, writeBy_onto, label_onto, hsequence, ih]

/-- Values have the same text. -/
@[simp] theorem text_onto (v : Value) : (h.onto k scopes).text v = h.text v := by
  have hsize : (h.onto k scopes).sequences.size = h.sequences.size := rfl
  simp only [text, write, writeBy_onto, writeSequence_onto, hsize]

/-- Operators have the same results. -/
@[simp] theorem binary_onto (op : BinaryOp) (left right : Value) :
    (h.onto k scopes).binary op left right = h.binary op left right := by
  cases op with
  | add => simp only [binary, sum, text_onto]
  | _ => rfl

/-- Positions denote the same slots. -/
@[simp] theorem slot_onto (id : SequenceId) (position : Value) :
    (h.onto k scopes).slot id position = h.slot id position := by
  have hsequence : (h.onto k scopes).sequence id = h.sequence id := rfl
  simp only [slot, text_onto, hsequence]

/-- The same values can be called, and with as many arguments. -/
@[simp] theorem callable?_onto (v : Value) : (h.onto k scopes).callable? v = h.callable? v := by
  cases v with
  | function f => simp only [callable?, functionArity, declaration_onto]
  | boundMethod b =>
    have hbound : (h.onto k scopes).boundMethod b = h.boundMethod b := rfl
    simp only [callable?, functionArity, declaration_onto, hbound]
  | classObject c =>
    have hclass : (h.onto k scopes).classOf c = h.classOf c := rfl
    simp only [callable?, classArity, findMethod?_onto, functionArity, declaration_onto, hclass]
  | _ => rfl

/-- Instances have the same properties. -/
@[simp] theorem property_onto (o : InstanceId) : (h.onto k scopes).property o name = h.property o name := by
  have hinstance : (h.onto k scopes).instanceOf o = h.instanceOf o := rfl
  simp only [property, findMethod?_onto, hinstance]

/-- Builtins answer the same. -/
@[simp] theorem run_onto (b : Builtin) (time : Float) (arguments : List Value) :
    b.run time arguments (h.onto k scopes) = b.run time arguments h := by
  have hsequence (id : SequenceId) : (h.onto k scopes).sequence id = h.sequence id := rfl
  cases b <;> simp only [Builtin.run, text_onto, hsequence]

/-! ## Contraction -/

/-- A heap contracts to another by a renaming of its scopes, if the other one has no counterparts of the hollow scopes.
These bind nothing, and stand for the scope around them. -/
structure Contracts (k : ScopeId → ScopeId) (hollow : ScopeId → Prop) (h h' : Heap) : Prop where
  objects : h' = h.onto k h'.scopes
  first : k ⟨0⟩ = ⟨0⟩
  there : ∀ s : ScopeId, s.index < h.scopes.size → (k s).index < h'.scopes.size
  solid : ∀ s : ScopeId, s.index < h.scopes.size → ¬hollow s →
    h'.scope (k s) = ⟨(h.scope s).bindings, (h.scope s).parent.map k⟩
  empty : ∀ s : ScopeId, s.index < h.scopes.size → hollow s →
    (h.scope s).bindings = {} ∧ ∃ p, (h.scope s).parent = some p ∧ k p = k s
  injective : ∀ s t : ScopeId, s.index < h.scopes.size → t.index < h.scopes.size → ¬hollow s → ¬hollow t →
    k s = k t → s = t
  nested : h'.Nested

/-- Two renamings agree on the first scopes, so many. -/
def AgreeBelow (size : Nat) (k k' : ScopeId → ScopeId) : Prop :=
  ∀ s : ScopeId, s.index < size → k' s = k s

/-- Every heap contracts to itself if nothing is hollow. -/
theorem Contracts.refl (hnested : h.Nested) : Contracts id (fun _ => False) h h := by
  refine ⟨?_, rfl, fun _ hs => hs, fun s _ _ => ?_, fun _ _ hs => hs.elim, fun _ _ _ _ _ _ hst => hst, hnested⟩
  · exact (onto_id h h.scopes).symm
  · rw [Option.map_id]
    rfl

/-- All objects but scopes are the same. -/
theorem Contracts.exists_scopes (hc : Contracts k hollow h h') : ∃ scopes, h' = h.onto k scopes :=
  ⟨h'.scopes, hc.objects⟩

/-- Heaps with the same scopes contract if their objects do. -/
theorem Contracts.of_scopes {h₁ h₁' : Heap} (hc : Contracts k hollow h h') (hscopes : h₁.scopes = h.scopes)
    (hscopes' : h₁'.scopes = h'.scopes) (hobjects : h₁' = h₁.onto k h₁'.scopes) : Contracts k hollow h₁ h₁' := by
  have hscope (s : ScopeId) : h₁.scope s = h.scope s := by rw [scope, scope, hscopes]
  have hscope' (s : ScopeId) : h₁'.scope s = h'.scope s := by rw [scope, scope, hscopes']
  obtain ⟨-, hfirst, hthere, hsolid, hempty, hinjective, hnested⟩ := hc
  refine ⟨hobjects, hfirst, ?_, ?_, ?_, ?_, fun s p hp => ?_⟩
  · rwa [hscopes, hscopes']
  · simpa only [hscopes, hscope, hscope'] using hsolid
  · simpa only [hscopes, hscope] using hempty
  · rwa [hscopes]
  · rw [hscope'] at hp
    exact hnested s p hp

/-- Functions have the same code, in renamed scopes. -/
theorem Contracts.function (hc : Contracts k hollow h h') (f : FunctionId) :
    h'.function f = (h.function f).onto k := by
  have hdeclaration : (h'.function f).declaration = (h.function f).declaration := by rw [hc.objects, declaration_onto]
  have hscope : (h'.function f).scope = k (h.function f).scope := by rw [hc.objects, function_onto hc.first]
  calc
    h'.function f = ⟨(h'.function f).declaration, (h'.function f).scope⟩ := rfl
    _ = ⟨(h.function f).declaration, k (h.function f).scope⟩ := by rw [hdeclaration, hscope]
    _ = (h.function f).onto k := rfl

/-! ## What names mean -/

/-- A name is found in a scope or else where it is found in the scope around it. -/
theorem locate?_eq (hnested : h.Nested) (s : ScopeId) (name : String) :
    h.locate? s name =
      ((h.own s name).map fun v => (s, v)).or ((h.scope s).parent.bind fun p => h.locate? p name) := by
  unfold locate? own
  rw [locateWithin]
  cases (h.scope s).bindings.find? name with
  | some v => rfl
  | none =>
    cases hparent : (h.scope s).parent with
    | none => rfl
    | some p => exact locateWithin_eq hnested name (hnested s p hparent) (Nat.lt_succ_self _)

/-- What is found is found in a scope that is there and not hollow. -/
theorem Contracts.solid_of_locate? (hc : Contracts k hollow h h') {found : ScopeId × Value}
    (hfound : h.locate? s name = some found) : found.1.index < h.scopes.size ∧ ¬hollow found.1 := by
  have hown : h.own found.1 name = some found.2 := own_of_locateWithin hfound
  have hthere : found.1.index < h.scopes.size := by
    refine Nat.not_le.1 fun hnot => ?_
    have hnone : h.scopes[found.1.index]? = none := Array.getElem?_eq_none hnot
    rw [own, scope, hnone] at hown
    cases hown
  refine ⟨hthere, fun hhollow => ?_⟩
  rw [own, (hc.empty _ hthere hhollow).1] at hown
  cases hown

/-- A name is found in the counterpart of the scope in which it is found. -/
theorem Contracts.locate? (hc : Contracts k hollow h h') (hnested : h.Nested) {s : ScopeId}
    (hs : s.index < h.scopes.size) (name : String) :
    h'.locate? (k s) name = (h.locate? s name).map fun found => (k found.1, found.2) := by
  by_cases hhollow : hollow s
  · -- A hollow scope finds what the scope around it finds, for which it stands.
    obtain ⟨hempty, p, hp, hkp⟩ := hc.empty s hs hhollow
    have holder := hnested s p hp
    have hown : h.own s name = none := by
      rw [own, hempty]
      rfl
    rw [locate?_eq hnested s, hown, hp, ← hkp, hc.locate? hnested (s := p) (by omega) name]
    rfl
  · have hscope := hc.solid s hs hhollow
    have hown : h'.own (k s) name = h.own s name := by rw [own, own, hscope]
    rw [locate?_eq hnested s, locate?_eq hc.nested (k s), hown, hscope]
    cases h.own s name with
    | some v => rfl
    | none =>
      cases hparent : (h.scope s).parent with
      | none => rfl
      | some p =>
        have holder := hnested s p hparent
        exact hc.locate? hnested (s := p) (by omega) name
termination_by s.index

/-- A name means the same in a scope and in its counterpart. -/
theorem Contracts.lookup? (hc : Contracts k hollow h h') (hnested : h.Nested) (hs : s.index < h.scopes.size)
    (name : String) : h'.lookup? (k s) name = h.lookup? s name := by
  rw [Heap.lookup?, Heap.lookup?, hc.locate? hnested hs name, Option.map_map]
  rfl

/-! ## Operations -/

/-- A scope in which a name is defined, and the others. -/
theorem scope_define : (h.define s name v).scope t =
    if s = t ∧ t.index < h.scopes.size then { h.scope t with bindings := (h.scope t).bindings.insert name v }
    else h.scope t := by
  simp only [scope, define, Array.getElem?_modify]
  by_cases hst : s = t
  · subst hst
    by_cases hlt : s.index < h.scopes.size
    · simp [hlt]
    · simp [hlt]
  · have hindex : s.index ≠ t.index := fun hindex => hst (by cases s; cases t; simpa using hindex)
    simp [hst, hindex]

/-- A name is defined in a scope and in its counterpart. -/
theorem Contracts.define (hc : Contracts k hollow h h') (hs : s.index < h.scopes.size) (hsolid : ¬hollow s)
    (name : String) (v : Value) : Contracts k hollow (h.define s name v) (h'.define (k s) name v) := by
  refine ⟨?_, hc.first, fun t ht => ?_, fun t ht htsolid => ?_, fun t ht hthollow => ?_, fun t u ht hu => ?_,
    hc.nested.define⟩
  · obtain ⟨scopes, rfl⟩ := hc.exists_scopes
    rfl
  · rw [size_scopes_define] at ht ⊢
    exact hc.there t ht
  · rw [size_scopes_define] at ht
    rw [scope_define, scope_define, hc.solid t ht htsolid]
    by_cases hst : s = t
    · subst hst
      rw [if_pos ⟨rfl, hc.there s ht⟩, if_pos ⟨rfl, ht⟩]
    · rw [if_neg fun hsame => hst (hc.injective s t hs ht hsolid htsolid hsame.1), if_neg fun hsame => hst hsame.1]
  · rw [size_scopes_define] at ht
    have hst : s ≠ t := fun hsame => hsolid (hsame ▸ hthollow)
    rw [scope_define, if_neg fun hsame => hst hsame.1]
    exact hc.empty t ht hthollow
  · rw [size_scopes_define] at ht hu
    exact hc.injective t u ht hu

/-- Parameters are bound in a scope and in its counterpart. -/
theorem Contracts.bindParameters (hsolid : ¬hollow s) : ∀ (names : List String) (values : List Value) {h h' : Heap},
    Contracts k hollow h h' → s.index < h.scopes.size →
      Contracts k hollow (Config.bindParameters h s names values) (Config.bindParameters h' (k s) names values)
  | [], _, _, _, hc, _ => hc
  | _ :: _, [], _, _, hc, _ => hc
  | _ :: names, _ :: values, _, _, hc, hs =>
    Contracts.bindParameters hsolid names values (hc.define hs hsolid _ _) (by rwa [size_scopes_define])

/-- Functions whose scopes are there are renamed alike if the renamings agree there. -/
theorem onto_congr (scopes : Array Scope) (hfunctions : ∀ f ∈ h.functions, f.scope.index < h.scopes.size)
    (hagree : AgreeBelow h.scopes.size k k') : h.onto k' scopes = h.onto k scopes := by
  have hsame : h.functions.map (Closure.onto k') = h.functions.map (Closure.onto k) := by
    refine Array.map_congr_left fun f hf => ?_
    rw [Closure.onto, Closure.onto, hagree _ (hfunctions f hf)]
  rw [onto, onto, hsame]

/-! ## New scopes -/

/-- A renaming that takes the scope behind the first ones, so many, to another. -/
def withPlace (k : ScopeId → ScopeId) (size : Nat) (place s : ScopeId) : ScopeId :=
  if s.index = size then place else k s

/-- The first scopes are renamed as before. -/
theorem agreeBelow_withPlace (k : ScopeId → ScopeId) (size : Nat) (place : ScopeId) :
    AgreeBelow size k (withPlace k size place) :=
  fun _ hs => if_neg (Nat.ne_of_lt hs)

/-- The scope behind them has the place that it is given. -/
theorem withPlace_self (k : ScopeId → ScopeId) (size : Nat) (place : ScopeId) :
    withPlace k size place ⟨size⟩ = place :=
  if_pos rfl

/-- A scope is added that has a new counterpart, or that is hollow and stands for the scope around it. -/
theorem Contracts.grow (hc : Contracts k hollow h h') (hh : h.IsGrounded) (hp : p.index < h.scopes.size)
    {place : ScopeId} {hollow₁ : ScopeId → Prop} {h₁' : Heap}
    (hsame : ∀ s : ScopeId, s.index < h.scopes.size → (hollow₁ s ↔ hollow s))
    (hobjects : h₁' = h.onto k h₁'.scopes)
    (hold : ∀ s : ScopeId, s.index < h'.scopes.size → s.index < h₁'.scopes.size ∧ h₁'.scope s = h'.scope s)
    (hplace : place.index < h₁'.scopes.size) (hnested : h₁'.Nested)
    (hnew : hollow₁ ⟨h.scopes.size⟩ ∧ place = k p ∨
      ¬hollow₁ ⟨h.scopes.size⟩ ∧ h'.scopes.size ≤ place.index ∧ h₁'.scope place = ⟨{}, some (k p)⟩) :
    Contracts (withPlace k h.scopes.size place) hollow₁ (h.newScope (some p)).2 h₁' := by
  have hagree := agreeBelow_withPlace k h.scopes.size place
  have hself := withPlace_self k h.scopes.size place
  generalize withPlace k h.scopes.size place = k₁ at hagree hself
  have hsplit (s : ScopeId) (hs : s.index < (h.newScope (some p)).2.scopes.size) :
      s.index < h.scopes.size ∨ s = ⟨h.scopes.size⟩ := by
    rw [size_scopes_newScope] at hs
    rcases Nat.lt_or_eq_of_le (Nat.le_of_lt_succ hs) with hlt | heq
    · exact .inl hlt
    · exact .inr (by cases s; exact congrArg ScopeId.mk heq)
  have hscope (s : ScopeId) (hs : s.index < h.scopes.size) : (h.newScope (some p)).2.scope s = h.scope s :=
    scope_newScope_of_lt hs
  have hscope_new : (h.newScope (some p)).2.scope ⟨h.scopes.size⟩ = { parent := some p } := scope_newScope_self
  refine ⟨?_, (hagree _ hh.first).trans hc.first, fun s hs => ?_, fun s hs hsolid => ?_, fun s hs hhollow => ?_,
    fun s t hs ht hssolid htsolid hst => ?_, hnested⟩
  · -- The functions are those that were there, whose scopes are renamed as before.
    have hrename := onto_congr h₁'.scopes hh.functions hagree
    exact hobjects.trans hrename.symm
  · rcases hsplit s hs with hlt | rfl
    · rw [hagree s hlt]
      exact (hold _ (hc.there s hlt)).1
    · rwa [hself]
  · -- The parent of a scope is before it, and so renamed as before.
    rcases hsplit s hs with hlt | rfl
    · have hparent : (h.scope s).parent.map k₁ = (h.scope s).parent.map k := by
        cases hq : (h.scope s).parent with
        | none => rfl
        | some q => exact congrArg some (hagree q (Nat.lt_trans (hh.nested s q hq) hlt))
      rw [hagree s hlt, hscope s hlt, (hold _ (hc.there s hlt)).2, hc.solid s hlt fun hs => hsolid ((hsame s hlt).2 hs),
        hparent]
    · rcases hnew with ⟨hhollow, -⟩ | ⟨-, -, hplaced⟩
      · exact absurd hhollow hsolid
      · rw [hself, hscope_new, hplaced, ← hagree p hp]
        rfl
  · -- A new scope that is hollow binds nothing, and its place is that of the scope around it.
    rcases hsplit s hs with hlt | rfl
    · obtain ⟨hempty, q, hq, hkq⟩ := hc.empty s hlt ((hsame s hlt).1 hhollow)
      rw [hscope s hlt]
      refine ⟨hempty, q, hq, ?_⟩
      rw [hagree s hlt, hagree q (Nat.lt_trans (hh.nested s q hq) hlt), hkq]
    · rcases hnew with ⟨-, hplaced⟩ | ⟨hsolid, -⟩
      · rw [hscope_new]
        exact ⟨rfl, p, rfl, by rw [hself, hagree p hp, hplaced]⟩
      · exact absurd hhollow hsolid
  · -- A new counterpart is that of no scope that was there.
    have hfresh (s : ScopeId) (hs : s.index < h.scopes.size) (hnewsolid : ¬hollow₁ ⟨h.scopes.size⟩) :
        k₁ s ≠ k₁ ⟨h.scopes.size⟩ := by
      rcases hnew with ⟨hhollow, -⟩ | ⟨-, hle, -⟩
      · exact absurd hhollow hnewsolid
      · rw [hagree s hs, hself]
        intro hsame
        have hlt := hc.there s hs
        rw [hsame] at hlt
        omega
    rcases hsplit s hs with hs | rfl
    · rcases hsplit t ht with ht | rfl
      · rw [hagree s hs, hagree t ht] at hst
        exact hc.injective s t hs ht (fun hh => hssolid ((hsame s hs).2 hh)) (fun hh => htsolid ((hsame t ht).2 hh)) hst
      · exact absurd hst (hfresh s hs htsolid)
    · rcases hsplit t ht with ht | rfl
      · exact absurd hst.symm (hfresh t ht hssolid)
      · rfl

/-- A scope is added in a scope, and a counterpart in its counterpart. -/
theorem Contracts.newScope (hc : Contracts k hollow h h') (hh : h.IsGrounded) (hp : p.index < h.scopes.size)
    (hnew : ¬hollow ⟨h.scopes.size⟩) :
    ∃ k₁, AgreeBelow h.scopes.size k k₁ ∧ k₁ ⟨h.scopes.size⟩ = ⟨h'.scopes.size⟩ ∧
      Contracts k₁ hollow (h.newScope (some p)).2 (h'.newScope (some (k p))).2 := by
  refine ⟨_, agreeBelow_withPlace k _ ⟨h'.scopes.size⟩, withPlace_self k _ _, ?_⟩
  refine hc.grow hh hp (fun _ _ => Iff.rfl) ?_ (fun s hs => ⟨?_, scope_newScope_of_lt hs⟩) (by simp)
    (hc.nested.newScope fun q hq => Option.some.inj hq ▸ hc.there p hp)
    (.inr ⟨hnew, Nat.le_refl _, scope_newScope_self⟩)
  · obtain ⟨scopes, rfl⟩ := hc.exists_scopes
    rfl
  · rw [size_scopes_newScope]
    exact Nat.lt_succ_of_lt hs

/-- A hollow scope is added in a scope, and nothing in its counterpart, which becomes that of the new one. -/
theorem Contracts.newHollow (hc : Contracts k hollow h h') (hh : h.IsGrounded) (hp : p.index < h.scopes.size) :
    ∃ k₁, AgreeBelow h.scopes.size k k₁ ∧ k₁ ⟨h.scopes.size⟩ = k p ∧
      Contracts k₁ (fun s => hollow s ∨ s = ⟨h.scopes.size⟩) (h.newScope (some p)).2 h' := by
  refine ⟨_, agreeBelow_withPlace k _ (k p), withPlace_self k _ _, ?_⟩
  refine hc.grow hh hp (fun s hs => or_iff_left ?_) hc.objects (fun s hs => ⟨hs, rfl⟩) (hc.there p hp) hc.nested
    (.inl ⟨.inr rfl, rfl⟩)
  rintro rfl
  exact Nat.lt_irrefl _ hs

/-! ## New functions and classes -/

/-- A function is added that has the counterpart of its scope. -/
theorem Contracts.newFunction (hc : Contracts k hollow h h') (f : Closure) :
    Contracts k hollow (h.newFunction f).2 (h'.newFunction (f.onto k)).2 := by
  refine hc.of_scopes rfl rfl ?_
  obtain ⟨scopes, rfl⟩ := hc.exists_scopes
  rw [Heap.newFunction, Heap.newFunction, onto, onto, Array.map_push]

/-- A class is added whose methods have the counterparts of their scopes. -/
theorem Contracts.addClass (hc : Contracts k hollow h h') (closures : Array Closure) (cls : Class) :
    Contracts k hollow (h.addClass closures cls) (h'.addClass (closures.map (Closure.onto k)) cls) := by
  refine hc.of_scopes rfl rfl ?_
  obtain ⟨scopes, rfl⟩ := hc.exists_scopes
  rw [Heap.addClass, Heap.addClass, onto, onto, Array.map_append]

/-- The functions for the methods of a class, in a renamed scope. -/
theorem map_onto_methodClosures (ds : List FunDecl) :
    (methodClosures s ds).map (Closure.onto k) = methodClosures (k s) ds := by
  simp [methodClosures, Closure.onto]

/-- Which methods a class gets depends on the scope of none, only on how many functions there are. -/
theorem declareMethods_fst_congr (ds : List FunDecl) : ∀ {h h' : Heap}, h'.functions.size = h.functions.size →
    (Config.declareMethods h' t ds).1 = (Config.declareMethods h s ds).1 := by
  induction ds with
  | nil => exact fun _ => rfl
  | cons d ds ih =>
    intro h h' hsize
    have hothers : (Config.declareMethods (h'.newFunction ⟨d, t⟩).2 t ds).1 =
        (Config.declareMethods (h.newFunction ⟨d, s⟩).2 s ds).1 := ih (by simp [Heap.newFunction, hsize])
    have hfirst : (h'.newFunction ⟨d, t⟩).1 = (h.newFunction ⟨d, s⟩).1 := congrArg FunctionId.mk hsize
    exact congrArg₂ (fun f others => (d.name, f) :: others) hfirst hothers

end Heap

end Lox
