import Lox.Proofs.Interpreter.AtRest
import Lox.Proofs.Interpreter.SequenceBuiltins
import Lox.Proofs.Number.Count

/-!
# Folding a sequence by recursion

The program `reduceText` folds a sequence with a recursive helper that closes over the function to fold with. Each
activation of the helper looks at the length of what remains, and calls itself on the rest with one call more under way.
So the fold is the left fold of the numbers, and it needs as many nested calls as there are numbers, and three more
(`reduce_folds`): those of `reduce`, of the helper where nothing remains, and of the builtin that finds that out.
-/

namespace Lox

open Config

variable {settings : Settings} {s : State} {values : List Value} {v : Value} {b : Builtin}

/-! ## Calls of builtins -/

/-- A builtin that answers a value leaves the state as it is. -/
theorem Calls.builtin_value (hb : b ≠ .now) (harity : b.arity.accepts values.length = true)
    (hdepth : s.depth < settings.maxCallDepth)
    (hrun : b.run (settings.clock s.readings) values s.heap = .ok (.value v)) :
    Calls settings (.builtin b) values s (.value v) s := by
  have hcallable : s.heap.callable? (.builtin b) = some (b.name, b.arity) := rfl
  rw [Calls, apply_eq_invoke hcallable harity hdepth, invoke_value (s := { s with depth := s.depth + 1 }) hrun hb]
  exact ⟨1, rfl⟩

/-- One that answers elements makes a sequence of them. -/
theorem Calls.builtin_elements {xs : Array Value} (harity : b.arity.accepts values.length = true)
    (hdepth : s.depth < settings.maxCallDepth)
    (hrun : b.run (settings.clock s.readings) values s.heap = .ok (.elements xs)) :
    Calls settings (.builtin b) values s (.value (.sequence ⟨s.heap.sequences.size⟩))
      { s with heap := (s.heap.newSequence xs).2 } := by
  have hcallable : s.heap.callable? (.builtin b) = some (b.name, b.arity) := rfl
  rw [Calls, apply_eq_invoke hcallable harity hdepth, invoke_elements (s := { s with depth := s.depth + 1 }) hrun]
  exact ⟨1, rfl⟩

/-! ## The program -/

/-- The helper: what has been folded so far, or the helper again on the rest. -/
def iterDecl : FunDecl :=
  .mk "iter" ["acc", "remaining"] [
    .conditional (.binary (.call (.variable "len") [.variable "remaining"]) .equal (.literal (.number 0)))
      (.returnValue (some (.variable "acc"))) none,
    .returnValue (some (.call (.variable "iter") [
      .call (.variable "f") [.variable "acc", .call (.variable "first") [.variable "remaining"]],
      .call (.variable "rest") [.variable "remaining"]]))]

/-- The fold. -/
def reduceDecl : FunDecl :=
  .mk "reduce" ["f", "init", "xs"] [
    .funDecl iterDecl,
    .returnValue (some (.call (.variable "iter") [.variable "init", .variable "xs"]))]

/-- The function to fold with. -/
def addDecl : FunDecl :=
  .mk "add" ["a", "b"] [.returnValue (some (.binary (.variable "a") .add (.variable "b")))]

/-- The text of the program. -/
def reduceText : String :=
  "fun reduce(f, init, xs) {
    fun iter(acc, remaining) {
        if (len(remaining) == 0) return acc;
        return iter(f(acc, first(remaining)), rest(remaining));
    }
    return iter(init, xs);
}

fun add(a, b) { return a + b; }
"

/-- The fold of the sequence `xs` from zero on. -/
def reduceCall : Expr :=
  .call (.variable "reduce") [.variable "add", .literal (.number 0), .variable "xs"]

set_option maxRecDepth 4000 in
/-- The text is read as the two declarations. -/
theorem parse_reduceText : Program.parse reduceText = .ok [.funDecl reduceDecl, .funDecl addDecl] :=
  (Program.parse_eq _).trans rfl

/-! ## The helper -/

/-- What the body of the helper relies on: what its free names mean in the scope of its declaration, and that the
function to fold with is the addition. -/
structure FoldScope (h : Heap) (p : ScopeId) (helper adder : FunctionId) : Prop where
  nested : h.Nested
  there : p.index < h.scopes.size
  len : h.lookup? p "len" = some (.builtin .len)
  first : h.lookup? p "first" = some (.builtin .first)
  rest : h.lookup? p "rest" = some (.builtin .rest)
  iter : h.lookup? p "iter" = some (.function helper)
  f : h.lookup? p "f" = some (.function adder)
  helperThere : helper.index < h.functions.size
  helperFunction : h.function helper = ⟨iterDecl, p⟩
  adderThere : adder.index < h.functions.size
  adderFunction : ∃ g, h.function adder = ⟨addDecl, g⟩ ∧ g.index < h.scopes.size

variable {h h' : Heap} {p g : ScopeId} {helper adder reducer : FunctionId} {s₁ : State} {acc x : Float}
  {remaining : Value} {q : SequenceId}

/-- The helper can rely on this in a heap that has grown. -/
theorem FoldScope.grow (hfold : FoldScope h p helper adder) (hg : h.Grows h') : FoldScope h' p helper adder where
  nested := hg.nested hfold.nested
  there := (hg.scope hfold.there).1
  len := (hg.lookup? hfold.nested hfold.there _).trans hfold.len
  first := (hg.lookup? hfold.nested hfold.there _).trans hfold.first
  rest := (hg.lookup? hfold.nested hfold.there _).trans hfold.rest
  iter := (hg.lookup? hfold.nested hfold.there _).trans hfold.iter
  f := (hg.lookup? hfold.nested hfold.there _).trans hfold.f
  helperThere := (hg.function hfold.helperThere).1
  helperFunction := (hg.function hfold.helperThere).2.trans hfold.helperFunction
  adderThere := (hg.function hfold.adderThere).1
  adderFunction := by
    obtain ⟨g, hfunction, hthere⟩ := hfold.adderFunction
    exact ⟨g, (hg.function hfold.adderThere).2.trans hfunction, (hg.scope hthere).1⟩

/-- The function to fold with answers the sum. -/
theorem calls_add (hnested : s.heap.Nested)
    (hadder : ∃ g, s.heap.function adder = ⟨addDecl, g⟩ ∧ g.index < s.heap.scopes.size)
    (hdepth : s.depth < settings.maxCallDepth) (x y : Float) : ∃ h', s.heap.Grows h' ∧
      Calls settings (.function adder) [.number x, .number y] s (.value (.number (x + y))) { s with heap := h' } := by
  obtain ⟨g, hfunction, hthere⟩ := hadder
  refine Calls.function_growing (r := .ok _) hnested hfunction hthere rfl hdepth fun s₁ ha => ⟨s₁.heap, ha.grows, ?_⟩
  have hsum : Evaluates settings (.binary (.variable "a") .add (.variable "b")) s₁
      (.ofExcept (.ok (.number (x + y)))) s₁ :=
    .binary (.variable (ha.lookup? "a")) (.variable (ha.lookup? "b"))
  exact .returnValue hsum

/-- A number, if as many nested calls are allowed as it takes to get it. -/
def withinDepth (limit needed : Nat) (x : Float) : Except RuntimeError Value :=
  if needed ≤ limit then .ok (.number x) else .error (.stackOverflow limit)

/-- A number that takes more calls than are allowed is not got. -/
theorem withinDepth_of_lt {limit needed : Nat} (hlt : limit < needed) (x : Float) :
    withinDepth limit needed x = .error (.stackOverflow limit) :=
  if_neg (Nat.not_le.2 hlt)

/-- The test of the helper is whether nothing remains, if one more call is allowed. -/
theorem evaluates_test (hlen : s.heap.lookup? s.scope "len" = some (.builtin .len))
    (hremaining : s.heap.lookup? s.scope "remaining" = some (.sequence q)) (hdepth : s.depth < settings.maxCallDepth) :
    Evaluates settings (.binary (.call (.variable "len") [.variable "remaining"]) .equal (.literal (.number 0))) s
      (.value (.boolean (decide ((s.heap.sequence q).size = 0)))) s := by
  have hrun : Builtin.len.run (settings.clock s.readings) [.sequence q] s.heap =
      .ok (.value (.number (Float.ofNat (s.heap.sequence q).size))) := rfl
  have hcall : Evaluates settings (.call (.variable "len") [.variable "remaining"]) s
      (.value (.number (Float.ofNat (s.heap.sequence q).size))) s :=
    .call (.variable hlen) (.cons (.variable hremaining) (.nil s)) (.builtin_value nofun rfl hdepth hrun)
  rw [← Number.ofNat_beq_zero]
  exact hcall.binary (.literal (.number 0) s)

/-- If not, the test fails. -/
theorem evaluates_test_error (hlen : s.heap.lookup? s.scope "len" = some (.builtin .len))
    (hremaining : s.heap.lookup? s.scope "remaining" = some v) (hdepth : settings.maxCallDepth ≤ s.depth) :
    Evaluates settings (.binary (.call (.variable "len") [.variable "remaining"]) .equal (.literal (.number 0))) s
      (.error (.stackOverflow settings.maxCallDepth)) s :=
  .binary_error (.call (.variable hlen) (.cons (.variable hremaining) (.nil s)) (.overflow rfl rfl hdepth))

/-- If nothing remains, the helper returns what has been folded so far. -/
theorem runs_iter_nil (ha : s.IsActivation p ["acc", "remaining"] [.number acc, .sequence q] s₁)
    (hfold : FoldScope s.heap p helper adder) (hq : s₁.heap.sequence q = #[])
    (hdepth : s₁.depth < settings.maxCallDepth) :
    Runs settings iterDecl.body s₁ (.returned (.number acc)) s₁ := by
  have htest := evaluates_test ((ha.lookup? "len").trans hfold.len) (ha.lookup? "remaining") hdepth
  rw [hq] at htest
  exact .stop (.conditional_true htest rfl (.returnValue (r := .ok _) (.variable (ha.lookup? "acc")))) nofun

/-- If something does, it returns what comes of the call on the rest, after the first number has been added. -/
theorem runs_iter_cons {rest : List Value} {r : Except RuntimeError Value}
    (ha : s.IsActivation p ["acc", "remaining"] [.number acc, .sequence q] s₁)
    (hfold : FoldScope s.heap p helper adder) (hthere : q.index < s₁.heap.sequences.size)
    (hq : s₁.heap.sequence q = (.number x :: rest).toArray) (hdepth : s₁.depth < settings.maxCallDepth)
    (hnext : ∀ (h : Heap) (q' : SequenceId), s₁.heap.Grows h → q'.index < h.sequences.size →
      h.sequence q' = rest.toArray → ∃ h', h.Grows h' ∧
        Calls settings (.function helper) [.number (acc + x), .sequence q'] { s₁ with heap := h } (.ofExcept r)
          { s₁ with heap := h' }) :
    ∃ h', s₁.heap.Grows h' ∧
      Runs settings iterDecl.body s₁ (Completion.ofExcept r).returning { s₁ with heap := h' } := by
  have htest := evaluates_test ((ha.lookup? "len").trans hfold.len) (ha.lookup? "remaining") hdepth
  rw [hq] at htest
  -- The first number is added, which leaves an activation behind.
  obtain ⟨hfirst, -, -⟩ := run_parts (settings.clock s₁.readings) hq
  have hx : Evaluates settings (.call (.variable "first") [.variable "remaining"]) s₁ (.value (.number x)) s₁ :=
    .call (.variable ((ha.lookup? "first").trans hfold.first)) (.cons (.variable (ha.lookup? "remaining")) (.nil _))
      (.builtin_value nofun rfl hdepth hfirst)
  obtain ⟨h₂, hgrows₂, hadd⟩ := calls_add ha.nested (hfold.grow ha.grows).adderFunction hdepth acc x
  have hsum : Evaluates settings
      (.call (.variable "f") [.variable "acc", .call (.variable "first") [.variable "remaining"]]) s₁
      (.value (.number (acc + x))) { s₁ with heap := h₂ } :=
    .call (.variable ((ha.lookup? "f").trans hfold.f)) (.cons (.variable (ha.lookup? "acc")) (.cons hx (.nil _))) hadd
  -- The others become a sequence of their own.
  have hlookup := hgrows₂.lookup? ha.nested ha.there
  obtain ⟨-, -, hothers⟩ := run_parts (settings.clock s₁.readings) ((hgrows₂.sequence hthere).2.trans hq)
  have hrest : Evaluates settings (.call (.variable "rest") [.variable "remaining"]) { s₁ with heap := h₂ }
      (.value (.sequence ⟨h₂.sequences.size⟩)) { s₁ with heap := (h₂.newSequence rest.toArray).2 } :=
    .call (.variable ((hlookup _).trans ((ha.lookup? "rest").trans hfold.rest)))
      (.cons (.variable ((hlookup _).trans (ha.lookup? "remaining"))) (.nil _)) (.builtin_elements rfl hdepth hothers)
  have hgrows₃ := hgrows₂.newSequence rest.toArray
  have hthere₃ : h₂.sequences.size < (h₂.newSequence rest.toArray).2.sequences.size := by simp [Heap.newSequence]
  obtain ⟨h', hgrows', hcall⟩ := hnext _ ⟨h₂.sequences.size⟩ hgrows₃ hthere₃ (by simp [Heap.newSequence, Heap.sequence])
  have hiter := Evaluates.call (.variable ((ha.lookup? "iter").trans hfold.iter))
    (.cons hsum (.cons hrest (.nil _))) hcall
  exact ⟨h', hgrows₃.trans hgrows', .cons (.conditional_false htest rfl) (.returnValue hiter)⟩

/-- A call of the helper is one call too many, or the look at the length is, or the helper ends as its body does. -/
theorem calls_iter_of_runs {needed : Nat} (hfold : FoldScope s.heap p helper adder) (hneeded : s.depth + 2 ≤ needed)
    (hbody : ∀ s₁, s.IsActivation p ["acc", "remaining"] [v, remaining] s₁ → s₁.depth < settings.maxCallDepth →
      ∃ h', s₁.heap.Grows h' ∧ Runs settings iterDecl.body s₁
        (Completion.ofExcept (withinDepth settings.maxCallDepth needed x)).returning { s₁ with heap := h' }) :
    ∃ h', s.heap.Grows h' ∧ Calls settings (.function helper) [v, remaining] s
      (.ofExcept (withinDepth settings.maxCallDepth needed x)) { s with heap := h' } := by
  by_cases hdepth : s.depth < settings.maxCallDepth
  · refine Calls.function_growing hfold.nested hfold.helperFunction hfold.there rfl hdepth fun s₁ ha => ?_
    by_cases hdeep : s₁.depth < settings.maxCallDepth
    · obtain ⟨h', hgrows, hruns⟩ := hbody s₁ ha hdeep
      exact ⟨h', ha.grows.trans hgrows, hruns⟩
    · have htest := evaluates_test_error ((ha.lookup? "len").trans hfold.len) (ha.lookup? "remaining")
        (Nat.le_of_not_lt hdeep)
      rw [withinDepth_of_lt (by rw [ha.depth] at hdeep; omega)]
      exact ⟨_, ha.grows, .stop (.conditional_error htest) nofun⟩
  · rw [withinDepth_of_lt (by omega)]
    exact ⟨s.heap, .refl _, .function_overflow hfold.helperFunction rfl (Nat.le_of_not_lt hdepth)⟩

/-- The helper answers the left fold of the numbers that remain, if two more calls are allowed than there are
numbers. -/
theorem calls_iter (settings : Settings) (numbers : List Float) : ∀ {s : State} (acc : Float) {q : SequenceId},
    FoldScope s.heap p helper adder → q.index < s.heap.sequences.size →
    s.heap.sequence q = (numbers.map Value.number).toArray →
    ∃ h', s.heap.Grows h' ∧ Calls settings (.function helper) [.number acc, .sequence q] s
      (.ofExcept (withinDepth settings.maxCallDepth (s.depth + numbers.length + 2) (numbers.foldl (· + ·) acc)))
      { s with heap := h' } := by
  induction numbers with
  | nil =>
    intro s acc q hfold hthere hq
    refine calls_iter_of_runs hfold (Nat.le_refl _) fun s₁ ha hdepth => ⟨s₁.heap, .refl _, ?_⟩
    have hok : withinDepth settings.maxCallDepth (s.depth + 2) acc = .ok (.number acc) :=
      if_pos (by rw [ha.depth] at hdepth; omega)
    have hruns := runs_iter_nil ha hfold ((ha.grows.sequence hthere).2.trans hq) hdepth
    change Runs settings iterDecl.body s₁ (Completion.ofExcept (withinDepth _ (s.depth + 2) acc)).returning s₁
    rw [hok]
    exact hruns
  | cons x numbers ih =>
    intro s acc q hfold hthere hq
    refine calls_iter_of_runs hfold (by omega) fun s₁ ha hdepth => ?_
    obtain ⟨hthere₁, hsequence⟩ := ha.grows.sequence hthere
    refine runs_iter_cons ha hfold hthere₁ (hsequence.trans hq) hdepth fun h q' hgrows hthere' hq' => ?_
    obtain ⟨h', hgrows', hcall⟩ :=
      ih (s := { s₁ with heap := h }) (acc + x) ((hfold.grow ha.grows).grow hgrows) hthere' hq'
    have hneeded : s₁.depth + numbers.length + 2 = s.depth + (x :: numbers).length + 2 := by
      rw [ha.depth, List.length_cons]
      omega
    exact ⟨h', hgrows', hneeded ▸ hcall⟩

/-! ## The fold -/

/-- What a call of the fold relies on: what the names of the builtins and of the functions mean, and what the functions
are. -/
structure ReduceScope (h : Heap) (g : ScopeId) (reducer adder : FunctionId) : Prop where
  nested : h.Nested
  there : g.index < h.scopes.size
  reduce : h.lookup? g "reduce" = some (.function reducer)
  add : h.lookup? g "add" = some (.function adder)
  len : h.lookup? g "len" = some (.builtin .len)
  first : h.lookup? g "first" = some (.builtin .first)
  rest : h.lookup? g "rest" = some (.builtin .rest)
  reducerFunction : h.function reducer = ⟨reduceDecl, g⟩
  adderThere : adder.index < h.functions.size
  adderFunction : h.function adder = ⟨addDecl, g⟩

/-- Once the helper is declared in an activation of the fold, it can rely on what it needs. -/
theorem ReduceScope.foldScope (hscope : ReduceScope s.heap g reducer adder) {init xs : Value}
    (ha : s.IsActivation g ["f", "init", "xs"] [.function adder, init, xs] s₁) :
    FoldScope (s₁.heap.declareFunction s₁.scope iterDecl) s₁.scope ⟨s₁.heap.functions.size⟩ adder := by
  obtain ⟨hadder, hsame⟩ := ha.grows.function hscope.adderThere
  have hother (name : String) (hname : "iter" ≠ name) :
      (s₁.heap.declareFunction s₁.scope iterDecl).lookup? s₁.scope name = s₁.heap.lookup? s₁.scope name :=
    Heap.lookup?_declareFunction_of_ne ha.nested hname
  have hscopes : (s₁.heap.declareFunction s₁.scope iterDecl).scopes.size = s₁.heap.scopes.size :=
    Heap.size_scopes_declareFunction
  have hfunctions : (s₁.heap.declareFunction s₁.scope iterDecl).functions.size = s₁.heap.functions.size + 1 :=
    Heap.size_functions_declareFunction
  refine
    { nested := ha.nested.declareFunction
      there := hscopes ▸ ha.there
      len := (hother _ (by decide)).trans ((ha.lookup? _).trans hscope.len)
      first := (hother _ (by decide)).trans ((ha.lookup? _).trans hscope.first)
      rest := (hother _ (by decide)).trans ((ha.lookup? _).trans hscope.rest)
      iter := Heap.lookup?_declareFunction_self ha.nested ha.there
      f := (hother _ (by decide)).trans (ha.lookup? _)
      helperThere := hfunctions ▸ Nat.lt_succ_self _
      helperFunction := Heap.function_declareFunction.trans (if_pos rfl)
      adderThere := hfunctions ▸ Nat.lt_succ_of_lt hadder
      adderFunction := ⟨g, ?_, hscopes ▸ (ha.grows.scope hscope.there).1⟩ }
  rw [Heap.function_declareFunction, if_neg (Nat.ne_of_lt hadder), hsame, hscope.adderFunction]

/-- The fold answers the left fold of the numbers, if three more calls are allowed than there are numbers. -/
theorem calls_reduce (hscope : ReduceScope s.heap g reducer adder) (numbers : List Float) (acc : Float)
    (hthere : q.index < s.heap.sequences.size) (hq : s.heap.sequence q = (numbers.map Value.number).toArray) :
    ∃ h', s.heap.Grows h' ∧ Calls settings (.function reducer) [.function adder, .number acc, .sequence q] s
      (.ofExcept (withinDepth settings.maxCallDepth (s.depth + numbers.length + 3) (numbers.foldl (· + ·) acc)))
      { s with heap := h' } := by
  by_cases hdepth : s.depth < settings.maxCallDepth
  · refine Calls.function_growing hscope.nested hscope.reducerFunction hscope.there rfl hdepth fun s₁ ha => ?_
    have hfold := hscope.foldScope ha
    -- In the activation the helper is declared, which adds to the heap of the caller, and called on all the numbers.
    have hgrows := ha.grows.declareFunction ha.new iterDecl
    obtain ⟨hthere', hsequence⟩ := hgrows.sequence hthere
    obtain ⟨h', hgrows', hcall⟩ := calls_iter (s := { s₁ with heap := s₁.heap.declareFunction s₁.scope iterDecl })
      settings numbers acc hfold hthere' (hsequence.trans hq)
    have hneeded : s₁.depth + numbers.length + 2 = s.depth + numbers.length + 3 := by rw [ha.depth]; omega
    have hargument {name : String} (hname : "iter" ≠ name) :
        (s₁.heap.declareFunction s₁.scope iterDecl).lookup? s₁.scope name = s₁.heap.lookup? s₁.scope name :=
      Heap.lookup?_declareFunction_of_ne ha.nested hname
    have hinit := (hargument (by decide)).trans (ha.lookup? "init")
    have hxs := (hargument (by decide)).trans (ha.lookup? "xs")
    refine ⟨h', hgrows.trans hgrows', .cons (.funDecl iterDecl s₁) (.returnValue ?_)⟩
    exact .call (.variable hfold.iter) (.cons (.variable hinit) (.cons (.variable hxs) (.nil _))) (hneeded ▸ hcall)
  · rw [withinDepth_of_lt (by omega)]
    exact ⟨s.heap, .refl _, .function_overflow hscope.reducerFunction rfl (Nat.le_of_not_lt hdepth)⟩

/-- The heap after the program has been run in a scope. -/
def Heap.declareFold (h : Heap) (g : ScopeId) : Heap :=
  (h.declareFunction g reduceDecl).declareFunction g addDecl

/-- Names that are not those of the functions mean what they meant. -/
theorem Heap.lookup?_declareFold_of_ne (hnested : h.Nested) {name : String} (hreduce : "reduce" ≠ name)
    (hadd : "add" ≠ name) : (h.declareFold g).lookup? g name = h.lookup? g name :=
  (lookup?_declareFunction_of_ne (d := addDecl) hnested.declareFunction hadd).trans
    (lookup?_declareFunction_of_ne (d := reduceDecl) hnested hreduce)

/-- The program provides what the fold relies on. -/
theorem reduceScope_declareFold (hnested : h.Nested) (hg : g.index < h.scopes.size)
    (hlen : h.lookup? g "len" = some (.builtin .len)) (hfirst : h.lookup? g "first" = some (.builtin .first))
    (hrest : h.lookup? g "rest" = some (.builtin .rest)) :
    ReduceScope (h.declareFold g) g ⟨h.functions.size⟩ ⟨h.functions.size + 1⟩ := by
  have hg' : g.index < (h.declareFunction g reduceDecl).scopes.size := by simpa using hg
  have hadd := Heap.lookup?_declareFunction_self (d := addDecl) hnested.declareFunction hg'
  rw [Heap.size_functions_declareFunction] at hadd
  exact
    { nested := hnested.declareFunction.declareFunction
      there := by simpa [Heap.declareFold] using hg
      reduce := (Heap.lookup?_declareFunction_of_ne (d := addDecl) hnested.declareFunction (by decide)).trans
        (Heap.lookup?_declareFunction_self (d := reduceDecl) hnested hg)
      add := hadd
      len := (Heap.lookup?_declareFold_of_ne hnested (by decide) (by decide)).trans hlen
      first := (Heap.lookup?_declareFold_of_ne hnested (by decide) (by decide)).trans hfirst
      rest := (Heap.lookup?_declareFold_of_ne hnested (by decide) (by decide)).trans hrest
      reducerFunction := by simp [Heap.declareFold, Heap.function_declareFunction]
      adderThere := by simp [Heap.declareFold]
      adderFunction := by simp [Heap.declareFold, Heap.function_declareFunction] }

/-- The program declares its functions. -/
theorem runs_declareFold (s : State) : Runs settings [.funDecl reduceDecl, .funDecl addDecl] s (.value .nil)
    { s with heap := s.heap.declareFold s.scope } :=
  .cons (.funDecl reduceDecl s) (.cons (.funDecl addDecl _) (.nil _))

/-- Then the call of the fold is evaluated as the fold. -/
theorem evaluates_reduceCall (hscope : ReduceScope s.heap s.scope reducer adder)
    (hxs : s.heap.lookup? s.scope "xs" = some (.sequence q)) (hthere : q.index < s.heap.sequences.size)
    {numbers : List Float} (hq : s.heap.sequence q = (numbers.map Value.number).toArray) :
    ∃ h', s.heap.Grows h' ∧ Evaluates settings reduceCall s (.ofExcept
      (withinDepth settings.maxCallDepth (s.depth + numbers.length + 3) (numbers.foldl (· + ·) 0)))
      { s with heap := h' } := by
  obtain ⟨h', hgrows, hcall⟩ := calls_reduce hscope numbers 0 hthere hq
  have hzero : Evaluates settings (.literal (.number 0)) s (.value (.number 0)) s := .literal (.number 0) s
  exact ⟨h', hgrows, .call (.variable hscope.reduce)
    (.cons (.variable hscope.add) (.cons hzero (.cons (.variable hxs) (.nil s)))) hcall⟩

namespace Interpreter

variable {settings : Settings} {i : Interpreter} {id : SequenceId} {numbers : List Float}

/-- What an interpreter answers to the call, once it provides what the fold relies on. -/
theorem exists_interpretOne_reduceCall (hscope : i.state.scope = i.globals) (hdepth : i.state.depth = 0)
    (hfold : ReduceScope i.state.heap i.globals reducer adder)
    (hxs : i.state.heap.lookup? i.globals "xs" = some (.sequence id)) (hid : id.index < i.state.heap.sequences.size)
    (hnumbers : i.state.heap.sequence id = (numbers.map Value.number).toArray) :
    ∃ steps j, i.interpretOne steps (.expression reduceCall) =
        some (withinDepth i.settings.maxCallDepth (numbers.length + 3) (numbers.foldl (· + ·) 0), j) ∧
      j.global "xs" = .ok (.sequence id) ∧ j.state.heap.sequence id = i.state.heap.sequence id := by
  rw [← hscope] at hfold hxs
  obtain ⟨h', hgrows, hcall⟩ := evaluates_reduceCall hfold hxs hid hnumbers
  obtain ⟨steps, hend⟩ := exists_complete (i := i) hcall
  have hneeded : i.state.depth + numbers.length + 3 = numbers.length + 3 := by omega
  rw [Completion.result_ofExcept, hneeded] at hend
  have hxs' : h'.lookup? i.globals "xs" = some (.sequence id) :=
    hscope ▸ (hgrows.lookup? hfold.nested hfold.there "xs").trans hxs
  exact ⟨steps, i.withHeap h', hend, global_of_lookup? hxs', (hgrows.sequence hid).2⟩

/-- The recursive fold of a sequence of numbers is their left fold, if three more nested calls are allowed than there
are numbers, and too deep otherwise. The sequence stays as it is. This holds at any time in a session, if the names of
the builtins that the fold uses still mean them. -/
theorem reduce_folds (hi : Session .any (fresh settings) i) (hlen : i.global "len" = .ok (.builtin .len))
    (hfirst : i.global "first" = .ok (.builtin .first)) (hrest : i.global "rest" = .ok (.builtin .rest))
    (hxs : i.global "xs" = .ok (.sequence id))
    (hnumbers : i.state.heap.sequence id = (numbers.map Value.number).toArray) :
    Program.parse "reduce(add, 0, xs);" = .ok [.expression reduceCall] ∧
    ∃ steps j, i.run steps reduceText = some (.ok (), j) ∧
      ∃ steps' k, j.interpretOne steps' (.expression reduceCall) = some (
          if numbers.length + 3 ≤ settings.maxCallDepth then .ok (.number (numbers.foldl (· + ·) 0))
          else .error (.stackOverflow settings.maxCallDepth), k) ∧
        k.global "xs" = .ok (.sequence id) ∧ k.state.heap.sequence id = i.state.heap.sequence id := by
  obtain ⟨hscope, hdepth, hthere, ⟨hnested, -, -⟩, hintact⟩ := hi.atRest
  have hruns : Runs i.settings [.funDecl reduceDecl, .funDecl addDecl] i.state (.value .nil)
      { i.state with heap := i.state.heap.declareFold i.globals } := by
    rw [← hscope]
    exact runs_declareFold i.state
  obtain ⟨steps, hrun⟩ := exists_run parse_reduceText hruns
  have hfold := reduceScope_declareFold hnested hthere (lookup?_of_global hlen) (lookup?_of_global hfirst)
    (lookup?_of_global hrest)
  have hxs' : (i.state.heap.declareFold i.globals).lookup? i.globals "xs" = some (.sequence id) :=
    (Heap.lookup?_declareFold_of_ne hnested (by decide) (by decide)).trans (lookup?_of_global hxs)
  have hid : id.index < i.state.heap.sequences.size := isThere_of_global_intact hintact hxs
  obtain ⟨steps', k, hone, hend⟩ := exists_interpretOne_reduceCall
    (i := i.withHeap (i.state.heap.declareFold i.globals)) hscope hdepth hfold hxs' hid hnumbers
  rw [show (i.withHeap (i.state.heap.declareFold i.globals)).settings = settings from hi.settings_globals.1] at hone
  exact ⟨(Program.parse_eq _).trans rfl, steps, _, hrun, steps', k, hone, hend⟩

/-- The interpreter after two numbers have been defined as `xs`, with as many nested calls allowed as their fold
needs. -/
def twoNumbers : Interpreter :=
  (fresh ⟨5, fun _ => 0⟩).withHeap
    (((fresh ⟨5, fun _ => 0⟩).state.heap.newSequence #[.number 1, .number 2]).2.define ⟨0⟩ "xs" (.sequence ⟨0⟩))

/-- The fold adds the numbers up. -/
theorem reduce_folds_twoNumbers :
    Session .any (fresh ⟨5, fun _ => 0⟩) twoNumbers ∧ twoNumbers.global "xs" = .ok (.sequence ⟨0⟩) ∧
    twoNumbers.state.heap.sequence ⟨0⟩ = #[.number 1, .number 2] ∧
    ∃ steps j, twoNumbers.run steps reduceText = some (.ok (), j) ∧
      ∃ steps' k, j.interpretOne steps' (.expression reduceCall) = some (.ok (.number (0 + 1 + 2)), k) := by
  have hsession : Session .any (fresh ⟨5, fun _ => 0⟩) twoNumbers := by
    have hembed : (fresh ⟨5, fun _ => 0⟩).embed (.list [.number 1, .number 2]) =
        .ok (.sequence ⟨0⟩, (fresh ⟨5, fun _ => 0⟩).withHeap
          ((fresh ⟨5, fun _ => 0⟩).state.heap.newSequence #[.number 1, .number 2]).2) := rfl
    exact ⟨.value .nil, _, .single (.edit (.define trivial hembed)), rfl⟩
  have hnumbers : twoNumbers.state.heap.sequence ⟨0⟩ = ([1, 2].map Value.number).toArray := rfl
  obtain ⟨-, steps, j, hrun, steps', k, hone, -⟩ := reduce_folds hsession rfl rfl rfl rfl hnumbers
  exact ⟨hsession, rfl, hnumbers, steps, j, hrun, steps', k, hone⟩

end Interpreter

end Lox
