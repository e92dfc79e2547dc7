import Lox.Heap.Basic

/-!
# Scopes

What names mean in a scope when the heap changes. A look outwards takes a name from the scope itself or else from the
scope around it (`lookup?_eq`), as long as every scope is younger than the one around it. So what a name means in a
scope depends on the scopes up to it alone (`lookup?_congr`), and neither new scopes nor other names matter.
-/

namespace Lox.Heap

variable {h h' : Heap} {s s' : ScopeId} {name name' : String} {v : Value}

/-- What a scope itself binds a name to. -/
def own (h : Heap) (s : ScopeId) (name : String) : Option Value :=
  (h.scope s).bindings.find? name

/-- Every scope is younger than the one around it. -/
def Nested (h : Heap) : Prop :=
  ∀ s p, (h.scope s).parent = some p → p.index < s.index

/-! ## Looking outwards -/

/-- More steps than there are scopes outwards find nothing more. -/
theorem locateWithin_eq (hnested : h.Nested) (name : String) : ∀ {n m : Nat} {s : ScopeId}, s.index < n → s.index < m →
    h.locateWithin name n s = h.locateWithin name m s
  | 0, _, _, hn, _ => absurd hn (Nat.not_lt_zero _)
  | _, 0, _, _, hm => absurd hm (Nat.not_lt_zero _)
  | n + 1, m + 1, s, hn, hm => by
    unfold locateWithin
    cases (h.scope s).bindings.find? name with
    | some v => rfl
    | none =>
      cases hparent : (h.scope s).parent with
      | none => rfl
      | some p =>
        have holder := hnested s p hparent
        exact locateWithin_eq hnested name (by omega) (by omega)

/-- A name means in a scope what the scope binds it to, or else what it means in the scope around it. -/
theorem lookup?_eq (hnested : h.Nested) (s : ScopeId) (name : String) :
    h.lookup? s name = (h.own s name).or ((h.scope s).parent.bind fun p => h.lookup? p name) := by
  unfold lookup? locate? own
  rw [locateWithin]
  cases (h.scope s).bindings.find? name with
  | some v => rfl
  | none =>
    cases hparent : (h.scope s).parent with
    | none => rfl
    | some p =>
      have holder := hnested s p hparent
      show Option.map Prod.snd (h.locateWithin name s.index p) =
        Option.map Prod.snd (h.locateWithin name (p.index + 1) p)
      rw [locateWithin_eq hnested name holder (Nat.lt_succ_self _)]

/-- What a name means in a scope depends on the scopes that are not younger. -/
theorem lookup?_congr (hnested : h.Nested) (hnested' : h'.Nested) {s : ScopeId}
    (hown : ∀ t : ScopeId, t.index ≤ s.index → h'.own t name = h.own t name)
    (hparent : ∀ t : ScopeId, t.index ≤ s.index → (h'.scope t).parent = (h.scope t).parent) :
    h'.lookup? s name = h.lookup? s name := by
  rw [lookup?_eq hnested, lookup?_eq hnested', hown s (Nat.le_refl _), hparent s (Nat.le_refl _)]
  cases hp : (h.scope s).parent with
  | none => rfl
  | some p =>
    have holder := hnested s p hp
    have hlookup : h'.lookup? p name = h.lookup? p name :=
      lookup?_congr hnested hnested' (fun t ht => hown t (by omega)) (fun t ht => hparent t (by omega))
    simp only [Option.bind_some, hlookup]
termination_by s.index

/-- What is found was bound by some scope. -/
theorem own_of_locateWithin : ∀ {n : Nat} {s found : ScopeId} {v : Value},
    h.locateWithin name n s = some (found, v) → h.own found name = some v
  | 0, _, _, _, hfound => nomatch hfound
  | n + 1, s, found, v, hfound => by
    unfold locateWithin at hfound
    cases hown : (h.scope s).bindings.find? name with
    | some w =>
      simp only [hown] at hfound
      obtain ⟨rfl, rfl⟩ := Prod.mk.inj (Option.some.inj hfound)
      exact hown
    | none =>
      simp only [hown] at hfound
      cases hparent : (h.scope s).parent with
      | none => simp only [hparent] at hfound; exact nomatch hfound
      | some p =>
        simp only [hparent] at hfound
        exact own_of_locateWithin hfound

/-- What a name means was bound by some scope. -/
theorem exists_own_of_lookup? (hlookup : h.lookup? s name = some v) : ∃ t, h.own t name = some v := by
  unfold lookup? locate? at hlookup
  obtain ⟨⟨found, w⟩, hfound, rfl⟩ := Option.map_eq_some_iff.1 hlookup
  exact ⟨found, own_of_locateWithin hfound⟩

/-! ## Definitions -/

/-- A definition leaves the scopes inside each other. -/
@[simp] theorem parent_define : ((h.define s name v).scope s').parent = (h.scope s').parent := by
  simp only [scope, define, Array.getElem?_modify]
  split
  · cases h.scopes[s'.index]? <;> rfl
  · rfl

/-- What a definition binds, and what it leaves. -/
theorem own_define : (h.define s name v).own s' name' =
    if s = s' ∧ name = name' ∧ s'.index < h.scopes.size then some v else h.own s' name' := by
  simp only [own, scope, define, Array.getElem?_modify]
  by_cases hs : s = s'
  · subst hs
    by_cases hlt : s.index < h.scopes.size
    · by_cases hname : name = name' <;> simp [hlt, hname]
    · simp [hlt]
  · have hindex : s.index ≠ s'.index := fun hindex => hs (by cases s; cases s'; simpa using hindex)
    simp [hs, hindex]

/-- No scope comes or goes with a definition. -/
@[simp] theorem size_scopes_define : (h.define s name v).scopes.size = h.scopes.size := by
  simp [define]

/-- A definition leaves the nesting. -/
theorem Nested.define (hnested : h.Nested) : (h.define s name v).Nested := by
  intro t p hp
  rw [parent_define] at hp
  exact hnested t p hp

/-- A definition matters to no other name. -/
theorem lookup?_define (hnested : h.Nested) (hname : name ≠ name') :
    (h.define s name v).lookup? s' name' = h.lookup? s' name' := by
  refine lookup?_congr hnested hnested.define (fun t _ => ?_) fun t _ => parent_define
  rw [own_define, if_neg fun hall => hname hall.2.1]

/-- What is defined in a scope is what the name means there. -/
theorem lookup?_define_self (hnested : h.Nested) (hlt : s.index < h.scopes.size) :
    (h.define s name v).lookup? s name = some v := by
  rw [lookup?_eq hnested.define, own_define, if_pos ⟨rfl, rfl, hlt⟩]
  rfl

/-! ## New scopes -/

variable {o : Option ScopeId}

/-- There is one scope more. -/
@[simp] theorem size_scopes_newScope : (h.newScope o).2.scopes.size = h.scopes.size + 1 := by
  simp [newScope]

/-- A scope is added that binds nothing, and the others stay as they are. -/
theorem scope_newScope :
    (h.newScope o).2.scope s = if s.index = h.scopes.size then { parent := o } else h.scope s := by
  have hpush : (h.newScope o).2.scopes[s.index]? = if s.index = h.scopes.size then some { parent := o }
      else h.scopes[s.index]? := Array.getElem?_push
  rw [scope, hpush]
  split <;> rfl

/-- The scopes that were there stay as they are. -/
theorem scope_newScope_of_lt (hs : s.index < h.scopes.size) : (h.newScope o).2.scope s = h.scope s := by
  rw [scope_newScope, if_neg (Nat.ne_of_lt hs)]

/-- A new scope binds nothing. -/
theorem scope_newScope_self : (h.newScope o).2.scope ⟨h.scopes.size⟩ = { parent := o } := by
  rw [scope_newScope, if_pos rfl]

/-- A new scope binds nothing, and what binds something else stays as it is. -/
theorem own_newScope : (h.newScope o).2.own s name = h.own s name := by
  rw [own, own, scope_newScope]
  split
  · rename_i hindex
    rw [scope, Array.getElem?_eq_none (Nat.le_of_eq hindex.symm)]
    rfl
  · rfl

/-- A new scope inside one that is there leaves the nesting. -/
theorem Nested.newScope (hnested : h.Nested) (ho : ∀ p, o = some p → p.index < h.scopes.size) :
    (h.newScope o).2.Nested := by
  intro t p hp
  rw [scope_newScope] at hp
  split at hp
  · rename_i hindex
    rw [hindex]
    exact ho p hp
  · exact hnested t p hp

/-- A new scope matters to no scope that was there. -/
theorem lookup?_newScope_of_lt (hnested : h.Nested) (ho : ∀ p, o = some p → p.index < h.scopes.size)
    (hs : s.index < h.scopes.size) : (h.newScope o).2.lookup? s name = h.lookup? s name := by
  refine lookup?_congr hnested (hnested.newScope ho) (fun t _ => own_newScope) fun t ht => ?_
  rw [scope_newScope_of_lt (by omega)]

/-- In a new scope names mean what they mean around it. -/
theorem lookup?_newScope_self {p : ScopeId} (hnested : h.Nested) (hp : p.index < h.scopes.size) :
    (h.newScope (some p)).2.lookup? ⟨h.scopes.size⟩ name = h.lookup? p name := by
  have ho : ∀ q, some p = some q → q.index < h.scopes.size := by
    rintro q hq
    rwa [← Option.some.inj hq]
  have hold : (h.newScope (some p)).2.own ⟨h.scopes.size⟩ name = none := by
    unfold own
    rw [scope_newScope_self]
    rfl
  rw [lookup?_eq (hnested.newScope ho), hold, scope_newScope_self]
  exact lookup?_newScope_of_lt hnested ho hp

end Lox.Heap
