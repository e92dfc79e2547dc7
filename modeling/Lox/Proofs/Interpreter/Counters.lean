import Mathlib.Logic.Function.Iterate
import Lox.Proofs.Interpreter.AtRest
import Lox.Proofs.Interpreter.Pieces

/-!
# Counters

The program `makeCounterText` declares a function whose activations hand out a counter each, a function that closes over
its activation and counts its calls there. Counters of several activations are independent, and a counter is the same
one under all its names (`counters_independent`). What keeps them apart is that each has a scope of its own, which none
of the others ever writes to (`HasCounters`).
-/

namespace Lox

open Config

variable {settings : Settings} {s : State} {h h' : Heap} {g t : ScopeId} {m f : FunctionId} {v : Value} {x : Float}

/-! ## The program -/

/-- The function of a counter. -/
def incrementDecl : FunDecl :=
  .mk "increment" [] [
    .expression (.assign "count" (.binary (.variable "count") .add (.literal (.number 1)))),
    .returnValue (some (.variable "count"))]

/-- The function that makes counters. -/
def makeCounterDecl : FunDecl :=
  .mk "makeCounter" [] [
    .varDecl "count" (some (.literal (.number 0))),
    .funDecl incrementDecl,
    .returnValue (some (.variable "increment"))]

/-- The text of the program. -/
def makeCounterText : String :=
  "fun makeCounter() {
    var count = 0;
    fun increment() {
        count = count + 1;
        return count;
    }
    return increment;
}
"

set_option maxRecDepth 4000 in
/-- The text is read as the declaration. -/
theorem parse_makeCounterText : Program.parse makeCounterText = .ok [.funDecl makeCounterDecl] :=
  (Program.parse_eq _).trans rfl

/-! ## Uses of counters -/

/-- What is done with counters: a new one is made under a name, or one gets a further name, or one is called by one of
its names. -/
inductive CounterUse where
  | make (name : String)
  | share (name other : String)
  | call (name : String)

/-- The statement that does it. -/
def CounterUse.statement : CounterUse → Stmt
  | make name => .varDecl name (some (.call (.variable "makeCounter") []))
  | share name other => .varDecl name (some (.variable other))
  | call name => .expression (.call (.variable name) [])

/-- A tally of counters, which are numbered as they are made: how many there are, which one a name means, and how often
each has been called, by whichever of its names. -/
structure Tally where
  made : Nat := 0
  counter? : String → Option Nat := fun _ => none
  calls : Nat → Nat := fun _ => 0

namespace Tally

/-- The tally after a use. -/
def next (tally : Tally) : CounterUse → Tally
  | .make name =>
    { tally with
      made := tally.made + 1
      counter? := fun x => if name = x then some tally.made else tally.counter? x }
  | .share name other => { tally with counter? := fun x => if name = x then tally.counter? other else tally.counter? x }
  | .call name =>
    { tally with calls := fun c => if tally.counter? name = some c then tally.calls c + 1 else tally.calls c }

/-- Counters are made as long as the function that makes them has its name; only counters get further names, and only
counters are called. -/
def Allows (tally : Tally) : CounterUse → Prop
  | .make _ => tally.counter? "makeCounter" = none
  | .share _ other => (tally.counter? other).isSome
  | .call name => (tally.counter? name).isSome

/-- This holds of several uses, one after another. -/
def AllowsEach (tally : Tally) : List CounterUse → Prop
  | [] => True
  | use :: later => tally.Allows use ∧ (tally.next use).AllowsEach later

instance (tally : Tally) : (use : CounterUse) → Decidable (tally.Allows use)
  | .make _ => inferInstanceAs (Decidable (tally.counter? "makeCounter" = none))
  | .share _ other => inferInstanceAs (Decidable (tally.counter? other).isSome)
  | .call name => inferInstanceAs (Decidable (tally.counter? name).isSome)

instance decidableAllowsEach : (tally : Tally) → (uses : List CounterUse) → Decidable (tally.AllowsEach uses)
  | _, [] => .isTrue trivial
  | tally, use :: later =>
    have := decidableAllowsEach (tally.next use) later
    inferInstanceAs (Decidable (tally.Allows use ∧ (tally.next use).AllowsEach later))

/-- What a use answers: a call answers which call of its counter it is, counted from zero on by the addition of one. -/
def answer (tally : Tally) : CounterUse → Value
  | .call name =>
    match tally.counter? name with
    | some c => .number ((· + 1)^[tally.calls c + 1] 0)
    | none => .nil
  | _ => .nil

/-- What several uses answer, one after another. -/
def answers (tally : Tally) : List CounterUse → List (Except RuntimeError Value)
  | [] => []
  | use :: later => .ok (tally.answer use) :: (tally.next use).answers later

end Tally

variable {tally : Tally} {scopes : Nat → ScopeId} {c : Nat}

/-! ## Separation -/

/-- A scope binds a name to a function that is there, with a declaration and the scope that it closes over. -/
def Heap.BindsFunction (h : Heap) (g : ScopeId) (x : String) (closure : Closure) : Prop :=
  ∃ f, h.own g x = some (.function f) ∧ f.index < h.functions.size ∧ h.function f = closure

/-- This stays so in a heap that grows. -/
theorem Heap.BindsFunction.grow {x : String} {closure : Closure} (hbinds : h.BindsFunction g x closure)
    (hthere : g.index < h.scopes.size) (hg : h.Grows h') : h'.BindsFunction g x closure := by
  obtain ⟨f, hown, hf, hfunction⟩ := hbinds
  obtain ⟨hf', hsame⟩ := hg.function hf
  exact ⟨f, (hg.own hthere x).trans hown, hf', hsame.trans hfunction⟩

/-- And if another name is bound, or a name in another scope. -/
theorem Heap.BindsFunction.define {x y : String} {closure : Closure} (hbinds : h.BindsFunction g x closure)
    (hother : ¬(t = g ∧ y = x)) : (h.define t y v).BindsFunction g x closure := by
  obtain ⟨f, hown, hf⟩ := hbinds
  refine ⟨f, ?_, hf⟩
  rw [own_define, if_neg fun hall => hother ⟨hall.1, hall.2.1⟩, hown]

/-- What the heap holds: the function that makes counters, as long as it has its name; a scope for each counter, one
that none of the others has, in which its calls are counted; and for every name of a counter a function that closes over
its scope. -/
structure HasCounters (h : Heap) (g : ScopeId) (tally : Tally) (scopes : Nat → ScopeId) : Prop where
  nested : h.Nested
  there : g.index < h.scopes.size
  maker : tally.counter? "makeCounter" = none → h.BindsFunction g "makeCounter" ⟨makeCounterDecl, g⟩
  names : ∀ x c, tally.counter? x = some c → c < tally.made ∧ h.BindsFunction g x ⟨incrementDecl, scopes c⟩
  /-- The scope of a counter is there, and it is not the one in which counters are named. -/
  inside : ∀ c, c < tally.made → (scopes c).index < h.scopes.size ∧ scopes c ≠ g
  /-- Different counters have different scopes. -/
  separate : ∀ c, c < tally.made → ∀ c', c' < tally.made → scopes c = scopes c' → c = c'
  counts : ∀ c, c < tally.made → h.own (scopes c) "count" = some (.number ((· + 1)^[tally.calls c] 0))
  uncalled : ∀ c, tally.made ≤ c → tally.calls c = 0

/-- Where the program has been run there are no counters yet. -/
theorem hasCounters_declareFunction (hnested : h.Nested) (hg : g.index < h.scopes.size) :
    HasCounters (h.declareFunction g makeCounterDecl) g {} fun _ => g where
  nested := hnested.declareFunction
  there := Nat.lt_of_lt_of_eq hg Heap.size_scopes_declareFunction.symm
  maker _ := by
    refine ⟨⟨h.functions.size⟩, ?_, ?_, ?_⟩
    · exact Heap.own_declareFunction.trans (if_pos ⟨rfl, rfl, hg⟩)
    · exact Nat.lt_of_lt_of_eq (Nat.lt_succ_self _) Heap.size_functions_declareFunction.symm
    · exact Heap.function_declareFunction.trans (if_pos rfl)
  names _ _ hc := nomatch hc
  inside _ hc := absurd hc (Nat.not_lt_zero _)
  separate _ hc := absurd hc (Nat.not_lt_zero _)
  counts _ hc := absurd hc (Nat.not_lt_zero _)
  uncalled _ _ := rfl

namespace HasCounters

/-- A heap that grows holds what it held. -/
theorem grow (hcounters : HasCounters h g tally scopes) (hg : h.Grows h') : HasCounters h' g tally scopes where
  nested := hg.nested hcounters.nested
  there := (hg.scope hcounters.there).1
  maker hname := (hcounters.maker hname).grow hcounters.there hg
  names x c hc := (hcounters.names x c hc).imp_right fun hbinds => hbinds.grow hcounters.there hg
  inside c hc := (hcounters.inside c hc).imp_left fun hthere => (hg.scope hthere).1
  separate := hcounters.separate
  counts c hc := (hg.own (hcounters.inside c hc).1 _).trans (hcounters.counts c hc)
  uncalled := hcounters.uncalled

/-- A name may be given to a counter. -/
theorem name (hcounters : HasCounters h g tally scopes) (x : String) (hc : c < tally.made)
    (hf : f.index < h.functions.size) (hfunction : h.function f = ⟨incrementDecl, scopes c⟩) :
    HasCounters (h.define g x (.function f)) g
      { tally with counter? := fun y => if x = y then some c else tally.counter? y } scopes where
  nested := hcounters.nested.define
  there := Nat.lt_of_lt_of_eq hcounters.there Heap.size_scopes_define.symm
  maker hnone := by
    have hx : x ≠ "makeCounter" := fun hx => nomatch (if_pos hx).symm.trans hnone
    exact (hcounters.maker ((if_neg hx).symm.trans hnone)).define fun heq => hx heq.2
  names y c' hc' := by
    by_cases hy : x = y
    · obtain rfl := Option.some.inj ((if_pos hy).symm.trans hc')
      exact ⟨hc, f, Heap.own_define.trans (if_pos ⟨rfl, hy, hcounters.there⟩), hf, hfunction⟩
    · exact (hcounters.names y c' ((if_neg hy).symm.trans hc')).imp_right fun hbinds =>
        hbinds.define fun heq => hy heq.2
  inside c' hc' :=
    (hcounters.inside c' hc').imp_left fun hthere => Nat.lt_of_lt_of_eq hthere Heap.size_scopes_define.symm
  separate := hcounters.separate
  counts c' hc' := by
    rw [Heap.own_define, if_neg fun hall => (hcounters.inside c' hc').2 hall.1.symm]
    exact hcounters.counts c' hc'
  uncalled := hcounters.uncalled

/-- A scope in which nothing has been counted yet, and which no counter has, makes a counter. -/
theorem make (hcounters : HasCounters h g tally scopes) (ht : t.index < h.scopes.size) (hg : t ≠ g)
    (hother : ∀ c, c < tally.made → scopes c ≠ t) (hcount : h.own t "count" = some (.number 0)) :
    HasCounters h g { tally with made := tally.made + 1 } (Function.update scopes tally.made t) where
  nested := hcounters.nested
  there := hcounters.there
  maker := hcounters.maker
  names x c hc := by
    obtain ⟨hmade, hname⟩ := hcounters.names x c hc
    rw [Function.update_of_ne (Nat.ne_of_lt hmade)]
    exact ⟨Nat.lt_succ_of_lt hmade, hname⟩
  inside c hc := by
    rcases Nat.lt_succ_iff_lt_or_eq.1 hc with hmade | rfl
    · rw [Function.update_of_ne (Nat.ne_of_lt hmade)]
      exact hcounters.inside c hmade
    · rw [Function.update_self]
      exact ⟨ht, hg⟩
  separate c hc c' hc' heq := by
    rcases Nat.lt_succ_iff_lt_or_eq.1 hc with hmade | rfl <;> rcases Nat.lt_succ_iff_lt_or_eq.1 hc' with hmade' | rfl
    · rw [Function.update_of_ne (Nat.ne_of_lt hmade), Function.update_of_ne (Nat.ne_of_lt hmade')] at heq
      exact hcounters.separate c hmade c' hmade' heq
    · rw [Function.update_of_ne (Nat.ne_of_lt hmade), Function.update_self] at heq
      exact absurd heq (hother c hmade)
    · rw [Function.update_of_ne (Nat.ne_of_lt hmade'), Function.update_self] at heq
      exact absurd heq.symm (hother c' hmade')
    · rfl
  counts c hc := by
    rcases Nat.lt_succ_iff_lt_or_eq.1 hc with hmade | rfl
    · rw [Function.update_of_ne (Nat.ne_of_lt hmade)]
      exact hcounters.counts c hmade
    · rw [Function.update_self, hcount]
      exact congrArg (fun n => some (Value.number ((· + 1)^[n] 0))) (hcounters.uncalled _ (Nat.le_refl _)).symm
  uncalled c hc := hcounters.uncalled c (Nat.le_of_succ_le hc)

/-- A call may be counted, in the scope of its counter. -/
theorem call (hcounters : HasCounters h g tally scopes) (hc : c < tally.made) :
    HasCounters (h.define (scopes c) "count" (.number ((· + 1)^[tally.calls c + 1] 0))) g
      { tally with calls := fun c' => if c = c' then tally.calls c' + 1 else tally.calls c' } scopes where
  nested := hcounters.nested.define
  there := Nat.lt_of_lt_of_eq hcounters.there Heap.size_scopes_define.symm
  maker hname := (hcounters.maker hname).define fun heq => (hcounters.inside c hc).2 heq.1
  names x c' hc' := (hcounters.names x c' hc').imp_right fun hbinds =>
    hbinds.define fun heq => (hcounters.inside c hc).2 heq.1
  inside c' hc' :=
    (hcounters.inside c' hc').imp_left fun hthere => Nat.lt_of_lt_of_eq hthere Heap.size_scopes_define.symm
  separate := hcounters.separate
  counts c' hc' := by
    -- What is written is written to the scope of this counter, which is that of no other.
    change _ = some (Value.number ((· + 1)^[if c = c' then tally.calls c' + 1 else tally.calls c'] 0))
    rw [Heap.own_define]
    by_cases heq : c = c'
    · subst heq
      rw [if_pos ⟨rfl, rfl, (hcounters.inside c hc).1⟩, if_pos rfl]
    · rw [if_neg fun hall => heq (hcounters.separate c hc c' hc' hall.1), if_neg heq]
      exact hcounters.counts c' hc'
  uncalled c' hc' :=
    (if_neg (Nat.ne_of_lt (Nat.lt_of_lt_of_le hc hc'))).trans (hcounters.uncalled c' hc')

end HasCounters

/-! ## Calls -/

/-- A call of the function that makes counters answers a function that closes over a new scope, in which nothing has
been counted yet. -/
theorem calls_makeCounter (hnested : s.heap.Nested) (hg : g.index < s.heap.scopes.size)
    (hmaker : s.heap.function m = ⟨makeCounterDecl, g⟩) (hdepth : s.depth < settings.maxCallDepth) :
    ∃ h' f t, s.heap.Grows h' ∧
      Calls settings (.function m) [] s (.value (.function f)) { s with heap := h' } ∧
      (f.index < h'.functions.size ∧ h'.function f = ⟨incrementDecl, t⟩) ∧
      s.heap.scopes.size ≤ t.index ∧ t.index < h'.scopes.size ∧ h'.own t "count" = some (.number 0) := by
  -- The activation becomes the scope of the counter: it binds the count, and the function closes over it.
  let s₁ := s.activate m []
  have ha : s.IsActivation g [] [] s₁ := s.isActivation hnested hmaker hg []
  let h₁ := s₁.heap.define s₁.scope "count" (.number 0)
  let h₂ := h₁.declareFunction s₁.scope incrementDecl
  have hnested₁ : h₁.Nested := ha.nested.define
  have hthere : s₁.scope.index < h₁.scopes.size := Nat.lt_of_lt_of_eq ha.there Heap.size_scopes_define.symm
  have hgrows : s.heap.Grows h₂ := (ha.grows.define ha.new "count" (.number 0)).declareFunction ha.new incrementDecl
  have hname : h₂.lookup? s₁.scope "increment" = some (.function ⟨h₁.functions.size⟩) :=
    Heap.lookup?_declareFunction_self hnested₁ hthere
  have hcount : h₂.own s₁.scope "count" = some (.number 0) := by
    rw [Heap.own_declareFunction, if_neg fun hall => absurd hall.2.1 (by decide), Heap.own_define,
      if_pos ⟨rfl, rfl, ha.there⟩]
  have hruns : Runs settings makeCounterDecl.body s₁
      (Completion.ofExcept (.ok (.function ⟨h₁.functions.size⟩))).returning { s₁ with heap := h₂ } :=
    .cons (.varDecl (.literal (.number 0) s₁)) (.cons (.funDecl incrementDecl _) (.returnValue (.variable hname)))
  refine ⟨h₂, ⟨h₁.functions.size⟩, s₁.scope, hgrows, .function_of_runs hmaker rfl hdepth hruns, ⟨?_, ?_⟩, ha.new, ?_,
    hcount⟩
  · exact Nat.lt_of_lt_of_eq (Nat.lt_succ_self _) Heap.size_functions_declareFunction.symm
  · exact Heap.function_declareFunction.trans (if_pos rfl)
  · exact Nat.lt_of_lt_of_eq hthere Heap.size_scopes_declareFunction.symm

/-- A call of a counter answers one more than what has been counted in its scope, and counts it there. -/
theorem calls_increment (hnested : s.heap.Nested) (ht : t.index < s.heap.scopes.size)
    (hfunction : s.heap.function f = ⟨incrementDecl, t⟩) (hcount : s.heap.own t "count" = some (.number x))
    (hdepth : s.depth < settings.maxCallDepth) :
    ∃ h', s.heap.Grows h' ∧ Calls settings (.function f) [] s (.value (.number (x + 1)))
      { s with heap := h'.define t "count" (.number (x + 1)) } := by
  -- The activation binds nothing, so the name of the count is found in the scope of the counter.
  let s₁ := s.activate f []
  have ha : s.IsActivation t [] [] s₁ := s.isActivation hnested hfunction ht []
  have hopens : s₁.heap.OpensTo "count" s₁.scope t := .onwards (ha.own _) ha.parent (.here t)
  have hcount₁ : s₁.heap.own t "count" = some (.number x) := (ha.grows.own ht _).trans hcount
  have hvalue : Evaluates settings (.binary (.variable "count") .add (.literal (.number 1))) s₁
      (.ofExcept (.ok (.number (x + 1)))) s₁ :=
    .binary (.variable (hopens.lookup?_eq_own hcount₁ ha.nested)) (.literal (.number 1) s₁)
  have hname := hopens.lookup?_define (v := .number (x + 1)) ha.nested (ha.grows.scope ht).1
  have hruns : Runs settings incrementDecl.body s₁ (Completion.ofExcept (.ok (.number (x + 1)))).returning
      { s₁ with heap := s₁.heap.define t "count" (.number (x + 1)) } :=
    .cons (.expression (.assign hvalue ha.nested hopens hcount₁)) (.returnValue (.variable hname))
  exact ⟨s₁.heap, ha.grows, .function_of_runs hfunction rfl hdepth hruns⟩

/-! ## Uses -/

/-- A call of a name in the scope that binds it to a function is a call of the function. -/
theorem evaluates_call {name : String} {completion : Completion} {s' : State} (hnested : s.heap.Nested)
    (hown : s.heap.own s.scope name = some (.function f)) (hcall : Calls settings (.function f) [] s completion s') :
    Evaluates settings (.call (.variable name) []) s completion s' :=
  .call (.variable (Heap.lookup?_of_own hnested hown)) (.nil s) hcall

/-- A counter is made and named. -/
theorem executes_make (hcounters : HasCounters s.heap s.scope tally scopes) (hdepth : s.depth < settings.maxCallDepth)
    {name : String} (hallows : tally.Allows (.make name)) : ∃ h' scopes',
      Executes settings (CounterUse.make name).statement s (.value .nil) { s with heap := h' } ∧
        HasCounters h' s.scope (tally.next (.make name)) scopes' := by
  obtain ⟨m, hown, -, hmaker⟩ := hcounters.maker hallows
  obtain ⟨h', f, t, hgrows, hcall, ⟨hf, hfunction⟩, hnew, ht, hcount⟩ :=
    calls_makeCounter hcounters.nested hcounters.there hmaker hdepth
  -- The new scope is younger than all that are in use.
  have hother (c : Nat) (hc : c < tally.made) : scopes c ≠ t := by
    rintro rfl
    exact Nat.not_lt.2 hnew (hcounters.inside c hc).1
  have hglobal : t ≠ s.scope := by
    rintro rfl
    exact Nat.not_lt.2 hnew hcounters.there
  have hmade := (hcounters.grow hgrows).make ht hglobal hother hcount
  have hclosure : h'.function f = ⟨incrementDecl, Function.update scopes tally.made t tally.made⟩ := by
    rw [hfunction, Function.update_self]
  have hnamed := hmade.name name (Nat.lt_succ_self tally.made) hf hclosure
  exact ⟨h'.define s.scope name (.function f), _, .varDecl (evaluates_call hcounters.nested hown hcall), hnamed⟩

/-- None is made if its call would be one too many. -/
theorem executes_make_error (hcounters : HasCounters s.heap s.scope tally scopes)
    (hdepth : settings.maxCallDepth ≤ s.depth) {name : String} (hallows : tally.Allows (.make name)) :
    Executes settings (CounterUse.make name).statement s (.error (.stackOverflow settings.maxCallDepth)) s := by
  obtain ⟨m, hown, -, hmaker⟩ := hcounters.maker hallows
  exact .varDecl_error (evaluates_call hcounters.nested hown (.function_overflow hmaker rfl hdepth))

/-- A counter gets a further name. -/
theorem executes_share (hcounters : HasCounters s.heap s.scope tally scopes) {name other : String}
    (hallows : tally.Allows (.share name other)) : ∃ h' scopes',
      Executes settings (CounterUse.share name other).statement s (.value .nil) { s with heap := h' } ∧
        HasCounters h' s.scope (tally.next (.share name other)) scopes' := by
  obtain ⟨c, hc⟩ := Option.isSome_iff_exists.1 hallows
  obtain ⟨hmade, f, hown, hf, hfunction⟩ := hcounters.names other c hc
  refine ⟨_, scopes, .varDecl (.variable (Heap.lookup?_of_own hcounters.nested hown)), ?_⟩
  rw [Tally.next, hc]
  exact hcounters.name name hmade hf hfunction

/-- A call of a counter is counted, and answers its number. -/
theorem evaluates_count (hcounters : HasCounters s.heap s.scope tally scopes) (hdepth : s.depth < settings.maxCallDepth)
    {name : String} (hallows : tally.Allows (.call name)) : ∃ h' scopes',
      Evaluates settings (.call (.variable name) []) s (.value (tally.answer (.call name))) { s with heap := h' } ∧
        HasCounters h' s.scope (tally.next (.call name)) scopes' := by
  obtain ⟨c, hc⟩ := Option.isSome_iff_exists.1 hallows
  obtain ⟨hmade, f, hown, hf, hfunction⟩ := hcounters.names name c hc
  obtain ⟨h', hgrows, hcall⟩ := calls_increment hcounters.nested (hcounters.inside c hmade).1 hfunction
    (hcounters.counts c hmade) hdepth
  have hanswer : tally.answer (.call name) = .number ((· + 1)^[tally.calls c + 1] 0) := by rw [Tally.answer, hc]
  have hnext : tally.next (.call name) =
      { tally with calls := fun c' => if c = c' then tally.calls c' + 1 else tally.calls c' } := by
    simp only [Tally.next, hc, Option.some.injEq]
  rw [← Function.iterate_succ_apply' (· + 1)] at hcall
  rw [hanswer, hnext]
  exact ⟨_, scopes, evaluates_call hcounters.nested hown hcall, (hcounters.grow hgrows).call hmade⟩

namespace Interpreter

variable {i j : Interpreter}

/-- An interpreter is between uses of counters, of which at least one may be called at a time. -/
structure Counts (i : Interpreter) (tally : Tally) : Prop where
  depth : i.state.depth < i.settings.maxCallDepth
  counters : ∃ scopes, HasCounters i.state.heap i.state.scope tally scopes

/-- A use is answered as the tally says, and leads to the next tally. -/
theorem Counts.use (hi : i.Counts tally) {use : CounterUse} (hallows : tally.Allows use) :
    ∃ steps j, i.interpretOne steps use.statement = some (.ok (tally.answer use), j) ∧ j.Counts (tally.next use) := by
  obtain ⟨hdepth, scopes, hcounters⟩ := hi
  cases use with
  | make name =>
    obtain ⟨h', scopes', hexecutes, hnext⟩ := executes_make hcounters hdepth hallows
    obtain ⟨steps, hend⟩ := exists_complete hexecutes
    exact ⟨steps, i.withHeap h', hend, hdepth, scopes', hnext⟩
  | share name other =>
    obtain ⟨h', scopes', hexecutes, hnext⟩ := executes_share hcounters hallows
    obtain ⟨steps, hend⟩ := exists_complete (i := i) hexecutes
    exact ⟨steps, i.withHeap h', hend, hdepth, scopes', hnext⟩
  | call name =>
    obtain ⟨h', scopes', hevaluates, hnext⟩ := evaluates_count hcounters hdepth hallows
    obtain ⟨steps, hend⟩ := exists_complete hevaluates
    exact ⟨steps, i.withHeap h', hend, hdepth, scopes', hnext⟩

/-- So are several uses one after another, by any number of steps that is large enough for each. -/
theorem Counts.uses : ∀ {uses : List CounterUse} {i : Interpreter} {tally : Tally}, i.Counts tally →
    tally.AllowsEach uses → ∃ steps j, ∀ more, steps ≤ more →
      i.interpretEach more (uses.map CounterUse.statement) = some (tally.answers uses, j)
  | [], i, _, _, _ => ⟨0, i, fun _ _ => rfl⟩
  | use :: later, i, tally, hi, hallows => by
    obtain ⟨steps, j, hone, hj⟩ := hi.use hallows.1
    obtain ⟨steps', k, hlater⟩ := hj.uses hallows.2
    refine ⟨max steps steps', k, fun more hmore => ?_⟩
    have hone' : i.interpretOne more use.statement = some (.ok (tally.answer use), j) :=
      complete_mono hone (Nat.le_trans (Nat.le_max_left _ _) hmore)
    have hlater' := hlater more (Nat.le_trans (Nat.le_max_right _ _) hmore)
    simp only [List.map_cons, interpretEach, hone', hlater', Option.map_some, Tally.answers]

/-- Counters of separate activations are independent, and those of one activation share. After the program has been
run, at any time in a session, any number of counters may be made, named and called in any order, as long as calls are
allowed at all. Every call answers how often its counter has been called until then, by whichever of its names, counted
from zero on by the addition of one; the calls of other counters make no difference. If no calls are allowed, there are
no counters, since not even the first one can be made. -/
theorem counters_independent {settings : Settings} (hi : Session .any (fresh settings) i) :
    ∃ steps j, i.run steps makeCounterText = some (.ok (), j) ∧
      (0 < settings.maxCallDepth → ∀ uses, ({} : Tally).AllowsEach uses → ∃ steps' k,
        j.interpretEach steps' (uses.map CounterUse.statement) = some (({} : Tally).answers uses, k)) ∧
      (settings.maxCallDepth = 0 → ∀ name, ∃ steps' k,
        j.interpretOne steps' (CounterUse.make name).statement = some (.error (.stackOverflow 0), k)) := by
  obtain ⟨hscope, hdepth, hthere, ⟨hnested, -, -⟩, -⟩ := hi.atRest
  have hsettings : i.settings = settings := hi.settings_globals.1
  have hruns : Runs i.settings [.funDecl makeCounterDecl] i.state (.value .nil)
      { i.state with heap := i.state.heap.declareFunction i.state.scope makeCounterDecl } :=
    .cons (.funDecl makeCounterDecl i.state) (.nil _)
  obtain ⟨steps, hrun⟩ := exists_run parse_makeCounterText hruns
  let j := i.withHeap (i.state.heap.declareFunction i.state.scope makeCounterDecl)
  have hcounters : HasCounters j.state.heap j.state.scope {} _ :=
    hasCounters_declareFunction hnested (hscope ▸ hthere)
  subst hsettings
  refine ⟨steps, j, hrun, fun hallowed uses huses => ?_, fun hnone name => ?_⟩
  · have hj : j.Counts {} := ⟨hdepth ▸ hallowed, _, hcounters⟩
    obtain ⟨steps', k, hend⟩ := hj.uses huses
    exact ⟨steps', k, hend steps' (Nat.le_refl _)⟩
  · have hlimit : i.settings.maxCallDepth ≤ j.state.depth := Nat.le_of_eq (hnone.trans hdepth.symm)
    obtain ⟨steps', hend⟩ := exists_complete (i := j) (executes_make_error hcounters hlimit rfl)
    rw [hnone] at hend
    exact ⟨steps', _, hend⟩

/-- Two counters are made, of which the first gets a second name; then the first is called, the second, and the first
again by its other name. -/
def twoCounters : List CounterUse :=
  [.make "a", .make "b", .share "c" "a", .call "a", .call "b", .call "c"]

/-- The calls of the first counter answer one and two, that of the second one. -/
theorem counters_independent_twoCounters :
    ({} : Tally).AllowsEach twoCounters ∧
    ∃ steps j, (fresh ⟨1, fun _ => 0⟩).run steps makeCounterText = some (.ok (), j) ∧
      ∃ steps' k, j.interpretEach steps' (twoCounters.map CounterUse.statement) = some
        ([.nil, .nil, .nil, .number (0 + 1), .number (0 + 1), .number (0 + 1 + 1)].map .ok, k) := by
  have hallows : ({} : Tally).AllowsEach twoCounters := by decide
  obtain ⟨steps, j, hrun, huses, -⟩ := counters_independent (.refl .any (fresh ⟨1, fun _ => 0⟩))
  obtain ⟨steps', k, hend⟩ := huses Nat.one_pos twoCounters hallows
  exact ⟨hallows, steps, j, hrun, steps', k, hend⟩

end Interpreter

end Lox
