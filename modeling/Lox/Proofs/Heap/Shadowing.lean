import Lox.Machine.Step
import Lox.Proofs.Heap.Scopes

/-!
# Shadowing

A name that is defined in a scope is seen from every scope from which the walk outwards comes to this one before it
meets a binding of the name (`OpensTo`), and from no other. An assignment writes to the scope in which the walk from its
own scope ends, that is, to which the name resolves there (`Resolves`). So it is seen from all scopes in which the name
resolves to the same scope, and from no other (`stores_shadow`).
-/

namespace Lox.Heap

variable {h h' : Heap} {s t n p : ScopeId} {name other : String} {v w : Value}

/-- The walk outwards from a scope comes to another one without meeting a binding of a name before. -/
inductive OpensTo (h : Heap) (name : String) : ScopeId → ScopeId → Prop
  | here (s : ScopeId) : OpensTo h name s s
  | onwards {s p t : ScopeId} (hown : h.own s name = none) (hparent : (h.scope s).parent = some p)
      (hrest : OpensTo h name p t) : OpensTo h name s t

/-- A name resolves in a scope to the first one outwards that binds it. -/
structure Resolves (h : Heap) (name : String) (s n : ScopeId) : Prop where
  opens : h.OpensTo name s n
  binds : ∃ v, h.own n name = some v

/-- A name resolves in two scopes to the same one. -/
def SharesBinding (h : Heap) (name : String) (s t : ScopeId) : Prop :=
  ∃ n, h.Resolves name s n ∧ h.Resolves name t n

/-! ## What a walk finds -/

/-- What is found on a walk outwards is found in a scope to which the walk comes without meeting a binding before. -/
theorem opensTo_of_locateWithin : ∀ {k : Nat} {s n : ScopeId} {v : Value},
    h.locateWithin name k s = some (n, v) → h.OpensTo name s n
  | 0, _, _, _, hfound => nomatch hfound
  | k + 1, s, n, v, hfound => by
    unfold locateWithin at hfound
    cases hown : (h.scope s).bindings.find? name with
    | some w =>
      simp only [hown, Option.some.injEq, Prod.mk.injEq] at hfound
      exact hfound.1 ▸ .here s
    | none =>
      simp only [hown] at hfound
      cases hparent : (h.scope s).parent with
      | none => simp [hparent] at hfound
      | some p =>
        simp only [hparent] at hfound
        exact .onwards hown hparent (opensTo_of_locateWithin hfound)

/-- A walk outwards ends in the scope to which the name resolves, with what is bound there. -/
theorem resolves_of_locate? (hfound : h.locate? s name = some (n, v)) : h.Resolves name s n :=
  ⟨opensTo_of_locateWithin hfound, v, own_of_locateWithin hfound⟩

/-- Where the walk from a scope opens to another, a name means in the one what it means in the other. -/
theorem OpensTo.lookup? (hopens : h.OpensTo name s t) (hnested : h.Nested) : h.lookup? s name = h.lookup? t name := by
  induction hopens with
  | here => rfl
  | onwards hown hparent _ ih => rw [lookup?_eq hnested, hown, hparent, Option.none_or, Option.bind_some, ih]

/-- A name means what it is bound to where it resolves. -/
theorem OpensTo.lookup?_eq_own (hopens : h.OpensTo name s n) (hown : h.own n name = some v) (hnested : h.Nested) :
    h.lookup? s name = some v := by
  rw [hopens.lookup? hnested, lookup?_eq hnested, hown, Option.some_or]

/-- The walk from a scope opens to two others that bind the name only if these are one. -/
theorem OpensTo.unique (hopens : h.OpensTo name s n) (hopens' : h.OpensTo name s t) (hn : ∃ v, h.own n name = some v)
    (ht : ∃ v, h.own t name = some v) : n = t := by
  obtain ⟨v, hn⟩ := hn
  obtain ⟨w, ht⟩ := ht
  induction hopens with
  | here =>
    cases hopens' with
    | here => rfl
    | onwards hown => exact nomatch hown.symm.trans hn
  | onwards hown hparent _ ih =>
    cases hopens' with
    | here => exact nomatch hown.symm.trans ht
    | onwards _ hparent' hrest' =>
      obtain rfl := Option.some.inj (hparent'.symm.trans hparent)
      exact ih hrest' hn

/-- In a scope that binds it, a name means what it is bound to. -/
theorem lookup?_of_own (hnested : h.Nested) (hown : h.own s name = some v) : h.lookup? s name = some v :=
  (OpensTo.here s).lookup?_eq_own hown hnested

/-- A name is found where it resolves. -/
theorem OpensTo.locate?_eq (hopens : h.OpensTo name s n) (hown : h.own n name = some v) (hnested : h.Nested) :
    h.locate? s name = some (n, v) := by
  obtain ⟨⟨m, w⟩, hfound, rfl⟩ := Option.map_eq_some_iff.1 (hopens.lookup?_eq_own hown hnested)
  have hresolves := resolves_of_locate? hfound
  obtain rfl := hresolves.opens.unique hopens hresolves.binds ⟨w, hown⟩
  exact hfound

/-! ## Definitions -/

/-- What is defined in a scope is what the name means wherever the walk opens to that scope. -/
theorem OpensTo.lookup?_define (hopens : h.OpensTo name s t) (hnested : h.Nested) (ht : t.index < h.scopes.size) :
    (h.define t name v).lookup? s name = some v := by
  induction hopens with
  | here => exact lookup?_define_self hnested ht
  | @onwards s p t hown hparent _ ih =>
    rw [lookup?_eq hnested.define, own_define, parent_define, hparent, Option.bind_some, ih ht]
    split
    · rfl
    · rw [hown, Option.none_or]

/-- Wherever the walk does not open to the scope of a definition, the name means what it meant before. -/
theorem lookup?_define_of_not_opensTo {s : ScopeId} (hnested : h.Nested) (hopens : ¬h.OpensTo name s t) :
    (h.define t name v).lookup? s name = h.lookup? s name := by
  -- By induction on the age of the scope: the walk goes on to an older one unless the scope itself binds the name.
  have hne : t ≠ s := fun hts => hopens (hts ▸ .here t)
  rw [lookup?_eq hnested.define, lookup?_eq hnested s, own_define, if_neg fun hall => hne hall.1, parent_define]
  cases hown : h.own s name with
  | some w => rfl
  | none =>
    cases hparent : (h.scope s).parent with
    | none => rfl
    | some p =>
      have holder := hnested s p hparent
      have hrest : ¬h.OpensTo name p t := fun hrest => hopens (.onwards hown hparent hrest)
      rw [Option.bind_some, Option.bind_some, lookup?_define_of_not_opensTo hnested hrest]
termination_by s.index

/-- After a definition, a name that is not the one defined, or that is looked up where the walk does not open to the
scope of the definition, means what it meant before. -/
theorem lookup?_define_of_not (hnested : h.Nested) (hnot : ¬(other = name ∧ h.OpensTo name s t)) :
    (h.define t name v).lookup? s other = h.lookup? s other := by
  by_cases hname : other = name
  · subst hname
    exact lookup?_define_of_not_opensTo hnested fun hopens => hnot ⟨rfl, hopens⟩
  · exact lookup?_define hnested (Ne.symm hname)

/-! ## Assignments -/

/-- An assignment succeeds just where the name means something. -/
theorem isSome_assign? : (h.assign? s name v).isSome = (h.lookup? s name).isSome := by
  rw [assign?, lookup?, Option.isSome_map, Option.isSome_map]

/-- An assignment that succeeds defines the name anew in the scope to which it resolves, which is there. -/
theorem exists_resolves_of_assign? (hassign : h.assign? s name v = some h') :
    ∃ n, h.Resolves name s n ∧ n.index < h.scopes.size ∧ h' = h.define n name v := by
  obtain ⟨⟨n, w⟩, hfound, rfl⟩ := Option.map_eq_some_iff.1 hassign
  have hresolves := resolves_of_locate? hfound
  refine ⟨n, hresolves, ?_, rfl⟩
  obtain ⟨u, hown⟩ := hresolves.binds
  rcases Nat.lt_or_ge n.index h.scopes.size with hlt | hge
  · exact hlt
  · have hnone : h.own n name = none := by
      rw [own, scope, Array.getElem?_eq_none hge]
      rfl
    cases hnone.symm.trans hown

/-- The walk from a scope opens to the one to which a name resolves elsewhere just if the name resolves to the same one
in both. -/
theorem Resolves.sharesBinding_iff (hresolves : h.Resolves name s n) : h.SharesBinding name s t ↔ h.OpensTo name t n := by
  constructor
  · rintro ⟨m, hs, ht⟩
    obtain rfl := hs.opens.unique hresolves.opens hs.binds hresolves.binds
    exact ht.opens
  · intro hopens
    exact ⟨n, hresolves, hopens, hresolves.binds⟩

/-- An assigned value is what the name means wherever it resolves to the same scope. -/
theorem lookup?_assign? (hnested : h.Nested) (hassign : h.assign? s name v = some h')
    (hshares : h.SharesBinding name s t) : h'.lookup? t name = some v := by
  obtain ⟨n, hresolves, hn, rfl⟩ := exists_resolves_of_assign? hassign
  exact (hresolves.sharesBinding_iff.1 hshares).lookup?_define hnested hn

/-- After an assignment, a name that is not the one assigned, or that is looked up where this resolves to another scope
or to none, means what it meant before. -/
theorem lookup?_assign?_of_not (hnested : h.Nested) (hassign : h.assign? s name v = some h')
    (hnot : ¬(other = name ∧ h.SharesBinding name s t)) : h'.lookup? t other = h.lookup? t other := by
  obtain ⟨n, hresolves, -, rfl⟩ := exists_resolves_of_assign? hassign
  rw [hresolves.sharesBinding_iff] at hnot
  exact lookup?_define_of_not hnested hnot

/-- What is seen of an assignment, whatever is assigned, is seen where the name resolves to the same scope. -/
theorem lookup?_assign?_iff (hnested : h.Nested) (hbound : (h.lookup? s name).isSome) :
    (∀ v h', h.assign? s name v = some h' → h'.lookup? t other = some v) ↔
      other = name ∧ h.SharesBinding name s t := by
  constructor
  · intro hseen
    refine Classical.byContradiction fun hnot => ?_
    -- Of two values that are assigned, one is not what the name meant before.
    have hmeant (v : Value) : h.lookup? t other = some v := by
      obtain ⟨h', hassign⟩ := Option.isSome_iff_exists.1 ((isSome_assign? (v := v)).trans hbound)
      rw [← lookup?_assign?_of_not hnested hassign hnot]
      exact hseen v h' hassign
    exact nomatch (hmeant .nil).symm.trans (hmeant (.boolean true))
  · rintro ⟨rfl, hshares⟩ v h' hassign
    exact lookup?_assign? hnested hassign hshares

/-! ## The laws of scopes -/

open Config in
/-- What holds of names in a forest of scopes. -/
structure ObeysShadowing (h : Heap) : Prop where
  /-- A definition is seen wherever the walk opens to its scope, and nowhere else. -/
  define : ∀ (e : ScopeId) (x : String) (v : Value), e.index < h.scopes.size → ∀ (e' : ScopeId) (y : String),
    (y = x ∧ h.OpensTo x e' e → (h.define e x v).lookup? e' y = some v) ∧
      (¬(y = x ∧ h.OpensTo x e' e) → (h.define e x v).lookup? e' y = h.lookup? e' y)
  /-- An assignment succeeds just where the name means something; it is seen wherever the name resolves to the same
  scope, and nowhere else. -/
  assign : ∀ (e : ScopeId) (x : String) (v : Value),
    ((h.assign? e x v).isSome ↔ (h.lookup? e x).isSome) ∧
      ∀ h', h.assign? e x v = some h' → ∀ (e' : ScopeId) (y : String),
        (y = x ∧ h.SharesBinding x e e' → h'.lookup? e' y = some v) ∧
          (¬(y = x ∧ h.SharesBinding x e e') → h'.lookup? e' y = h.lookup? e' y)
  /-- Where whatever is assigned is seen, there the name resolves to the same scope. -/
  seen : ∀ (e e' : ScopeId) (x y : String), (h.lookup? e x).isSome →
    ((∀ v h', h.assign? e x v = some h' → h'.lookup? e' y = some v) ↔ y = x ∧ h.SharesBinding x e e')
  /-- An assignment of a program is this one; where it fails, nothing changes. -/
  program : ∀ (settings : Settings) (frames : List Frame) (s : State) (x : String) (v : Value), s.heap = h →
    (∀ h', h.assign? s.scope x v = some h' →
      resume settings (.assign x) v frames s = yield v frames { s with heap := h' }) ∧
    (h.lookup? s.scope x = none → resume settings (.assign x) v frames s = raise (.unresolvedName x) frames s)
  /-- What comes of a forest by a definition, an assignment or a new scope is a forest. -/
  forest : (∀ e x v, (h.define e x v).Nested) ∧ (∀ e x v h', h.assign? e x v = some h' → h'.Nested) ∧
    ∀ parent : Option ScopeId, (∀ p, parent = some p → p.index < h.scopes.size) → (h.newScope parent).2.Nested

/-- Definitions and assignments obey the laws of shadowing. In whatever forest of scopes, a definition is seen from
every scope whose walk outwards comes to its scope without a nearer binding of the name, and from no other; and an
assignment, which succeeds just where the name means something, is seen by all that share the binding which it writes,
and by nobody else. -/
theorem stores_shadow {h : Heap} (hnested : h.Nested) : h.ObeysShadowing where
  define e x v he e' y := by
    refine ⟨?_, lookup?_define_of_not hnested⟩
    rintro ⟨rfl, hopens⟩
    exact hopens.lookup?_define hnested he
  assign e x v := by
    refine ⟨by rw [isSome_assign?], fun h' hassign e' y => ⟨?_, lookup?_assign?_of_not hnested hassign⟩⟩
    rintro ⟨rfl, hshares⟩
    exact lookup?_assign? hnested hassign hshares
  seen e e' x y hbound := lookup?_assign?_iff hnested hbound
  program settings frames s x v hs := by
    subst hs
    constructor
    · intro h' hassign
      obtain ⟨found, hfound, rfl⟩ := Option.map_eq_some_iff.1 hassign
      simp only [Config.resume, hfound]
    · intro hnone
      simp only [Config.resume, Option.map_eq_none_iff.1 hnone]
  forest := by
    refine ⟨fun e x v => hnested.define, fun e x v h' hassign => ?_, fun parent hparent => hnested.newScope hparent⟩
    obtain ⟨n, -, -, rfl⟩ := exists_resolves_of_assign? hassign
    exact hnested.define

/-- A global scope, a scope in it that binds the name once more, two scopes that share this one, and a scope in the
first of them with a binding of its own. -/
def sharedScopes : Heap where
  scopes := #[{ bindings := .ofList [("x", .boolean false)] },
    { bindings := .ofList [("x", .boolean true)], parent := some ⟨0⟩ },
    { parent := some ⟨1⟩ }, { parent := some ⟨1⟩ },
    { bindings := .ofList [("x", .string "own")], parent := some ⟨2⟩ }]

/-- What one of the two scopes assigns is seen by the other, and neither outside of the scope that they share nor in the
scope that has a binding of its own. -/
theorem stores_shadow_sharedScopes :
    sharedScopes.Nested ∧ ∃ h', sharedScopes.assign? ⟨2⟩ "x" .nil = some h' ∧ h'.lookup? ⟨3⟩ "x" = some .nil ∧
      h'.lookup? ⟨0⟩ "x" = some (.boolean false) ∧ h'.lookup? ⟨4⟩ "x" = some (.string "own") := by
  have hnested : sharedScopes.Nested := by
    intro s p hp
    obtain ⟨index⟩ := s
    match index with
    | 0 => cases hp
    | 1 => cases hp; decide
    | 2 => cases hp; decide
    | 3 => cases hp; decide
    | 4 => cases hp; decide
    | k + 5 => cases hp
  have hshared : sharedScopes.SharesBinding "x" ⟨2⟩ ⟨3⟩ :=
    ⟨⟨1⟩, ⟨.onwards rfl rfl (.here _), _, rfl⟩, .onwards rfl rfl (.here _), _, rfl⟩
  have hassign : sharedScopes.assign? ⟨2⟩ "x" .nil = some (sharedScopes.define ⟨1⟩ "x" .nil) := rfl
  exact ⟨hnested, _, hassign, (((stores_shadow hnested).assign ⟨2⟩ "x" .nil).2 _ hassign ⟨3⟩ "x").1 ⟨rfl, hshared⟩,
    rfl, rfl⟩

end Lox.Heap
