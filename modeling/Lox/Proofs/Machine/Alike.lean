import Lox.Proofs.Machine.Contraction
import Lox.Proofs.Machine.Restoration

/-!
# States that differ in hollow scopes

Two states are alike if they come to the same state without their hollow scopes (`State.Alike`). Hollow scopes are
younger than the first ones, so many, and either state may be in such a scope: it stands for one of the first ones, the
home of the two. Code that declares nothing there runs alike in both, and so does any code when they are back at home. A
state stays like another one if it enters a new scope, as long as nothing is declared in it, and if it goes home.
-/

namespace Lox

open Config
open Heap (AgreeBelow)

variable {settings : Settings} {n : Nat} {k k' : ScopeId → ScopeId} {hollow : ScopeId → Prop} {home : ScopeId}
  {s s' t u : State} {focus : Focus} {frames : List Frame} {completion : Completion}

namespace State

/-- A state comes to another one without hollow scopes. Those are not among the first ones, so many, which keep their
places, nor among those to come. -/
structure ThinsBy (n : Nat) (hollow : ScopeId → Prop) (k : ScopeId → ScopeId) (s u : State) : Prop where
  grounded : Config.IsGrounded ⟨.deliver (.value .nil), [], s⟩
  contracts : Heap.Contracts k hollow s.heap u.heap
  same : u = { s with heap := u.heap, scope := k s.scope }
  size : n ≤ s.heap.scopes.size
  young : ∀ t, hollow t → n ≤ t.index ∧ t.index < s.heap.scopes.size
  old : AgreeBelow n id k

/-- A state comes to another one without some hollow scopes. -/
def Thins (n : Nat) (s u : State) : Prop :=
  ∃ hollow k, s.ThinsBy n hollow k u

/-- The frames that lead back to no other scope are the same. -/
theorem map_onto_id (frames : List Frame) : frames.map (Frame.onto id) = frames := by
  refine List.map_id'' (fun frame => ?_) frames
  cases frame <;> rfl

/-- A state comes to itself without any scope. -/
theorem Thins.refl (hs : Config.IsGrounded ⟨.deliver (.value .nil), [], s⟩) (hn : n ≤ s.heap.scopes.size) :
    s.Thins n s := by
  have hcontracts := Heap.Contracts.refl hs.heap.nested
  exact ⟨fun _ => False, id, hs, hcontracts, rfl, hn, fun _ => False.elim, fun _ _ => rfl⟩

/-- From one of the first scopes on, frames that lead back to such scopes declare names in no other ones. -/
theorem declareOnlyIn_of_isGrounded {own : ScopeId → Prop} (hown : ∀ t, t.index < n → own t)
    (hframes : ∀ frame ∈ frames, frame.IsGrounded n) {scope : ScopeId} (hscope : scope.index < n) :
    DeclareOnlyIn own scope frames := by
  induction frames generalizing scope with
  | nil => trivial
  | cons frame frames ih =>
    obtain ⟨hframe, hrest⟩ := List.forall_mem_cons.1 hframes
    refine ⟨fun _ => hown scope hscope, ih hrest ?_⟩
    cases frame with
    | leaveBlock outer => exact hframe
    | leaveFunction outer => exact hframe
    | _ => exact hscope

/-- Code that runs in either of two states in the same way: it declares no names, or it is in one of the first scopes
and its frames lead back to such scopes. -/
def RunsFrom (n : Nat) (focus : Focus) (frames : List Frame) (s : State) : Prop :=
  ¬focus.Declares ∧ frames = [] ∨ s.scope.index < n ∧ ∀ frame ∈ frames, frame.IsGrounded n

/-- The same code is mirrored. -/
theorem ThinsBy.config (hs : s.ThinsBy n hollow k u) (hruns : s.RunsFrom n focus frames) :
    Mirrors hollow k ⟨focus, frames, s⟩ ⟨focus, frames, u⟩ := by
  obtain ⟨hgrounded, hcontracts, hsame, hsize, hyoung, hold⟩ := hs
  have hsolid (t : ScopeId) (ht : t.index < n) : ¬hollow t := fun hhollow => Nat.not_lt.2 (hyoung t hhollow).1 ht
  have hcoming (t : ScopeId) (ht : s.heap.scopes.size ≤ t.index) : ¬hollow t :=
    fun hhollow => Nat.not_lt.2 ht (hyoung t hhollow).2
  obtain ⟨hframes, hfocus, hdeclares⟩ : (∀ frame ∈ frames, frame.IsGrounded n) ∧
      (focus.Declares → ¬hollow s.scope) ∧ DeclareOnlyIn (fun t => ¬hollow t) s.scope frames := by
    rcases hruns with ⟨hfocus, rfl⟩ | ⟨hscope, hframes⟩
    · exact ⟨List.forall_mem_nil _, fun hdeclares => absurd hdeclares hfocus, trivial⟩
    · exact ⟨hframes, fun _ => hsolid _ hscope, declareOnlyIn_of_isGrounded hsolid hframes hscope⟩
  have hstay : frames.map (Frame.onto k) = frames := by rw [map_onto_congr hframes hold, map_onto_id]
  refine ⟨⟨hgrounded.heap, hgrounded.scope, fun frame hframe => (hframes frame hframe).mono hsize⟩,
    ⟨hfocus, hdeclares, hcoming, .of_eq rfl⟩, hcontracts, ?_⟩
  rw [Config.onto, hstay, State.onto, ← hcontracts.objects, ← hsame]

/-- The scope of a state stands for that of the other one. -/
theorem ThinsBy.scope (hs : s.ThinsBy n hollow k u) : u.scope = k s.scope :=
  congrArg State.scope hs.same

/-- Where mirrored runs end, the one state comes to the other as it did in the beginning. -/
theorem ThinsBy.of_mirrors (hs : s.ThinsBy n hollow k u) (hagree : AgreeBelow s.heap.scopes.size k k')
    (hgrows : s.heap.scopes.size ≤ s'.heap.scopes.size)
    (hm : Mirrors hollow k' ⟨.deliver completion, [], s'⟩ ⟨.deliver completion, [], t⟩) : s'.ThinsBy n hollow k' t := by
  obtain ⟨-, -, hsame⟩ := Config.mk.inj hm.same
  rw [State.onto, ← hm.contracts.objects] at hsame
  exact ⟨hm.grounded.keep (.refl s') hm.grounded.frames, hm.contracts, hsame, Nat.le_trans hs.size hgrows,
    fun t ht => ⟨(hs.young t ht).1, Nat.lt_of_lt_of_le (hs.young t ht).2 hgrows⟩,
    fun t ht => (hagree t (Nat.lt_of_lt_of_le ht hs.size)).trans (hs.old t ht)⟩

/-- What has been printed is the same. -/
theorem Thins.same_output (hs : s.Thins n u) : u.output = s.output := by
  obtain ⟨hollow, k, hs⟩ := hs
  rw [hs.same]

/-- Both may go to one of the first scopes. -/
theorem Thins.move {m : Nat} {p : ScopeId} (hs : s.Thins m u) (hle : n ≤ m) (hp : p.index < n) :
    State.Thins n { s with scope := p } { u with scope := p } := by
  obtain ⟨hollow, k, hgrounded, hcontracts, hsame, hsize, hyoung, hold⟩ := hs
  have hthere : p.index < s.heap.scopes.size := Nat.lt_of_lt_of_le hp (Nat.le_trans hle hsize)
  have hstay : k p = p := hold p (Nat.lt_of_lt_of_le hp hle)
  refine ⟨hollow, k, ⟨hgrounded.heap, hthere, List.forall_mem_nil _⟩, hcontracts, ?_, Nat.le_trans hle hsize,
    fun t ht => ⟨Nat.le_trans hle (hyoung t ht).1, (hyoung t ht).2⟩, fun t ht => hold t (Nat.lt_of_lt_of_le ht hle)⟩
  rw [hstay]
  exact congrArg (fun v : State => { v with scope := p }) hsame

/-- A run in a state shows the same in the state to which it comes. -/
theorem Thins.shows_iff (hs : s.Thins n u) (hruns : s.RunsFrom n focus frames) {shown : String} :
    (⟨focus, frames, u⟩ : Config).Shows settings shown ↔ (⟨focus, frames, s⟩ : Config).Shows settings shown := by
  obtain ⟨hollow, k, hs⟩ := hs
  exact (hs.config hruns).shows_iff

/-- Where a run in a state ends, it ends in the state to which that comes. -/
theorem Thins.finishes (hs : s.Thins n u) (hruns : s.RunsFrom n focus frames)
    (hend : (⟨focus, frames, s⟩ : Config).Finishes settings completion s') :
    ∃ t, (⟨focus, frames, u⟩ : Config).Finishes settings completion t ∧ s'.Thins n t := by
  obtain ⟨hollow, k, hs⟩ := hs
  obtain ⟨t, k', hagree, hgrows, hend', hm⟩ := (hs.config hruns).finishes hend
  exact ⟨t, hend', hollow, k', hs.of_mirrors hagree hgrows hm⟩

/-- And the other way round. -/
theorem Thins.finishes_of (hs : s.Thins n u) (hruns : s.RunsFrom n focus frames)
    (hend : (⟨focus, frames, u⟩ : Config).Finishes settings completion t) :
    ∃ s', (⟨focus, frames, s⟩ : Config).Finishes settings completion s' ∧ s'.Thins n t := by
  obtain ⟨hollow, k, hs⟩ := hs
  obtain ⟨s', k', hagree, hgrows, hend', hm⟩ := (hs.config hruns).finishes_of hend
  exact ⟨s', hend', hollow, k', hs.of_mirrors hagree hgrows hm⟩

/-! ## Two states -/

/-- Two states come to the same one without hollow scopes, and are then in one of the first scopes, their home. -/
def Alike (n : Nat) (home : ScopeId) (s s' : State) : Prop :=
  ∃ u, s.Thins n u ∧ s'.Thins n u ∧ u.scope = home ∧ home.index < n

/-- Of two states that are alike, either one may come first. -/
theorem Alike.symm (h : s.Alike n home s') : s'.Alike n home s := by
  obtain ⟨u, hs, hs', hhome⟩ := h
  exact ⟨u, hs', hs, hhome⟩

/-- In the first scopes, every state is like itself. -/
theorem Alike.refl (hs : Config.IsGrounded ⟨.deliver (.value .nil), [], s⟩) (hn : n ≤ s.heap.scopes.size)
    (hscope : s.scope.index < n) : s.Alike n s.scope s :=
  ⟨s, .refl hs hn, .refl hs hn, rfl, hscope⟩

/-- A state stays like another one when it goes home. -/
theorem Alike.leave (h : s.Alike n home s') : State.Alike n home { s with scope := home } s' := by
  obtain ⟨u, ⟨hollow, k, hs⟩, hs', hscope, hhome⟩ := h
  have hstay : k home = k s.scope := (hs.old home hhome).trans (hscope.symm.trans hs.scope)
  refine ⟨u, ⟨hollow, k, ⟨hs.grounded.heap, Nat.lt_of_lt_of_le hhome hs.size, List.forall_mem_nil _⟩, hs.contracts, ?_,
    hs.size, hs.young, hs.old⟩, hs', hscope, hhome⟩
  rw [hstay]
  exact hs.same

/-- States that are alike stay so if both go to one of the first scopes. -/
theorem Alike.move {m : Nat} {p : ScopeId} (h : s.Alike m home s') (hle : n ≤ m) (hp : p.index < n) :
    State.Alike n p { s with scope := p } { s' with scope := p } := by
  obtain ⟨u, hs, hs', -⟩ := h
  exact ⟨{ u with scope := p }, hs.move hle hp, hs'.move hle hp, rfl, hp⟩

/-- A state in a new scope inside its own. -/
def inNewScope (s : State) : State :=
  { s with heap := (s.heap.newScope (some s.scope)).2, scope := ⟨s.heap.scopes.size⟩ }

/-- A state stays like another one when it enters a new scope. -/
theorem Alike.enter (h : s.Alike n home s') : s.inNewScope.Alike n home s' := by
  obtain ⟨u, ⟨hollow, k, hs⟩, hs', hhome⟩ := h
  -- The new scope is hollow, so that the state without hollow scopes need not change.
  obtain ⟨k₁, hagree, hself, hcontracts⟩ := hs.contracts.newHollow hs.grounded.heap hs.grounded.scope
  have hsize : (s.heap.newScope (some s.scope)).2.scopes.size = s.heap.scopes.size + 1 := Heap.size_scopes_newScope
  refine ⟨u, ⟨_, k₁, ⟨hs.grounded.heap.newScope hs.grounded.scope, ?_, List.forall_mem_nil _⟩, hcontracts, ?_, ?_,
    fun t ht => ?_, fun t ht => ?_⟩, hs', hhome⟩
  · exact hsize ▸ Nat.lt_succ_self _
  · have hstays : k₁ s.inNewScope.scope = k s.scope := hself
    rw [hstays]
    exact hs.same
  · exact hsize ▸ Nat.le_succ_of_le hs.size
  · rcases ht with ht | rfl
    · exact ⟨(hs.young t ht).1, hsize ▸ Nat.lt_succ_of_lt (hs.young t ht).2⟩
    · exact ⟨hs.size, hsize ▸ Nat.lt_succ_self _⟩
  · exact (hagree t (Nat.lt_of_lt_of_le ht hs.size)).trans (hs.old t ht)

/-! ## Runs -/

/-- What has been printed is the same. -/
theorem Alike.same_output (h : s.Alike n home s') : s'.output = s.output := by
  obtain ⟨u, hs, hs', -⟩ := h
  exact hs'.same_output.symm.trans hs.same_output

/-- Runs show the same. -/
theorem Alike.shows_iff (h : s.Alike n home s') (hs : s.RunsFrom n focus frames) (hs' : s'.RunsFrom n focus frames)
    {shown : String} :
    (⟨focus, frames, s⟩ : Config).Shows settings shown ↔ (⟨focus, frames, s'⟩ : Config).Shows settings shown := by
  obtain ⟨u, hu, hu', -⟩ := h
  exact (hu.shows_iff hs).symm.trans (hu'.shows_iff hs')

/-- Where the one run ends, so does the other, with the same completion and with what has been printed. -/
theorem Alike.finishes (h : s.Alike n home s') (hs : s.RunsFrom n focus frames) (hs' : s'.RunsFrom n focus frames)
    (hend : (⟨focus, frames, s⟩ : Config).Finishes settings completion t) :
    ∃ t', (⟨focus, frames, s'⟩ : Config).Finishes settings completion t' ∧ t'.output = t.output := by
  obtain ⟨u, hu, hu', -⟩ := h
  obtain ⟨v, hv, ht⟩ := hu.finishes hs hend
  obtain ⟨t', hend', ht'⟩ := hu'.finishes_of hs' hv
  exact ⟨t', hend', ht'.same_output.symm.trans ht.same_output⟩

/-- A run by itself ends in the scope in which it started. -/
theorem scope_of_finishes (hend : (⟨focus, [], s⟩ : Config).Finishes settings completion t) : t.scope = s.scope := by
  obtain ⟨m, hm⟩ := hend
  have hbalanced : IsBalanced settings s.scope s.depth ⟨focus, [], s⟩ := ⟨rfl, rfl, Nat.le_max_left _ _⟩
  have hhere := (advance_balanced m hbalanced).home
  rw [hm] at hhere
  exact hhere

/-- Where code that declares no names ends in the one state, it ends in the other one with the same completion, and the
states are alike again. -/
theorem Alike.exists_finishes (h : s.Alike n home s') (hfocus : ¬focus.Declares)
    (hend : (⟨focus, [], s⟩ : Config).Finishes settings completion t) :
    ∃ t', (⟨focus, [], s'⟩ : Config).Finishes settings completion t' ∧ t.Alike n home t' := by
  obtain ⟨u, hu, hu', hscope, hhome⟩ := h
  obtain ⟨v, hv, ht⟩ := hu.finishes (.inl ⟨hfocus, rfl⟩) hend
  obtain ⟨t', hend', ht'⟩ := hu'.finishes_of (.inl ⟨hfocus, rfl⟩) hv
  exact ⟨t', hend', v, ht, ht', (scope_of_finishes hv).trans hscope, hhome⟩

end State

end Lox
