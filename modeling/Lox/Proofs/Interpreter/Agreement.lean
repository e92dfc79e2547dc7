import Lox.Proofs.Interpreter.Session
import Lox.Proofs.Machine.Agreement

/-!
# Globals that a program does not mention

What a program does cannot depend on a global that it does not mention (`unmentioned_global`): run in two new sessions
whose globals differ in that one name, it prints the same and ends with the same result, leaves the same objects and the
same bindings of all other names, and touches the binding of that name in neither.
-/

namespace Lox

open Config

variable {p : String → Prop} {others others' : ScopeId → String → Option Value} {x : String}

namespace Interpreter

variable {settings : Settings} {i j : Interpreter} {c d : Config}

/-! ## New sessions -/

/-- A session in which nothing has been run, with some globals. -/
def withGlobals (settings : Settings) (globals : Bindings Value) : Interpreter :=
  { settings, globals := ⟨0⟩, state := { heap := { scopes := #[{ bindings := globals }] }, scope := ⟨0⟩ } }

/-- The globals of a bare session are none. -/
theorem bare_eq_withGlobals (settings : Settings) : bare settings = withGlobals settings {} :=
  rfl

/-- A host may define further globals. -/
theorem define_withGlobals (settings : Settings) (globals : Bindings Value) (name : String) (v : Value) :
    (withGlobals settings globals).define name v = withGlobals settings (globals.insert name v) :=
  rfl

/-- The globals of a fresh session are the builtins. -/
theorem fresh_eq_withGlobals (settings : Settings) : fresh settings =
    withGlobals settings (.ofList (Builtin.all.map fun b => (b.name, .builtin b))) := by
  -- To define builtins one by one is to add them to the globals one by one.
  have hdefine (bs : List Builtin) (globals : Bindings Value) :
      bs.foldl (fun h b => h.define ⟨0⟩ b.name (.builtin b)) (withGlobals settings globals).state.heap =
        (withGlobals settings (bs.foldl (fun g b => g.insert b.name (.builtin b)) globals)).state.heap := by
    induction bs generalizing globals with
    | nil => rfl
    | cons b bs ih => exact ih (globals.insert b.name (.builtin b))
  calc
    fresh settings = (bare settings).withHeap ((bare settings).state.heap.defineBuiltins ⟨0⟩) := rfl
    _ = (bare settings).withHeap (withGlobals settings
        (Builtin.all.foldl (fun g b => g.insert b.name (.builtin b)) {})).state.heap := by
      rw [Heap.defineBuiltins, bare_eq_withGlobals, hdefine]
    _ = withGlobals settings (.ofList (Builtin.all.map fun b => (b.name, .builtin b))) := by
      rw [Bindings.ofList, List.foldl_map]
      rfl

/-- The scopes of a new session bind the globals, in the first one. -/
theorem own_withGlobals {globals : Bindings Value} {s : ScopeId} {name : String} :
    (withGlobals settings globals).state.heap.own s name =
      if s = (withGlobals settings globals).globals then globals.find? name else none := by
  obtain ⟨_ | index⟩ := s
  · rfl
  · rfl

/-- New sessions agree on the names with a property if their globals do and the program mentions no others. -/
theorem agree_withGlobals {globals globals' : Bindings Value} {program : Program}
    (hglobals : ∀ name, p name → globals'.find? name = globals.find? name) (hprogram : Stmt.AllMentionOnly p program) :
    ((withGlobals settings globals).start program).Agree p (withGlobals settings globals).state.heap.own
      (withGlobals settings globals').state.heap.own ((withGlobals settings globals').start program) := by
  have hheap : (withGlobals settings globals).state.heap.Agree p (withGlobals settings globals).state.heap.own
      (withGlobals settings globals').state.heap.own (withGlobals settings globals').state.heap := by
    refine ⟨rfl, rfl, fun s => ?_, fun s name hname => ?_, fun _ _ _ => rfl, fun _ _ _ => rfl, fun f hf => ?_⟩
    · obtain ⟨_ | index⟩ := s <;> rfl
    · rw [own_withGlobals, own_withGlobals, hglobals name hname]
      rfl
    · exact absurd hf (Array.not_mem_empty f)
  exact agree_of_heap hheap trivial (List.forall_mem_singleton.2 hprogram)

/-! ## Ends of runs -/

/-- Two sessions are the same but for what their scopes bind a name to: settings, what has been printed, how often the
clock was read, and all objects but scopes are the same, and the scopes bind all other names alike. -/
structure SameBut (x : String) (i j : Interpreter) : Prop where
  objects : j = i.withHeap { i.state.heap with scopes := j.state.heap.scopes }
  size : j.state.heap.scopes.size = i.state.heap.scopes.size
  parents : ∀ s, (j.state.heap.scope s).parent = (i.state.heap.scope s).parent
  bindings : ∀ s name, name ≠ x → j.state.heap.own s name = i.state.heap.own s name

/-- How runs end that started in two sessions. The results are the same, and so are the sessions but for a name; what
the scopes of either session bind that name to is what they bound it to in the beginning. -/
structure EndsAlike (x : String) (i j : Interpreter) (ended ended' : Except RuntimeError Value × Interpreter) :
    Prop where
  result : ended'.1 = ended.1
  output : ended'.2.state.output = ended.2.state.output
  globals : ∀ name, name ≠ x → ended'.2.global name = ended.2.global name
  sessions : SameBut x ended.2 ended'.2
  untouched : ∀ s, ended.2.state.heap.own s x = i.state.heap.own s x
  untouched' : ∀ s, ended'.2.state.heap.own s x = j.state.heap.own s x

/-- Runs from configurations that agree end alike, if they end in so many steps. -/
theorem complete_endsAlike (hthis : x ≠ thisName) (hsuper : x ≠ superName) (steps : Nat)
    (ha : c.Agree (· ≠ x) i.state.heap.own j.state.heap.own d) (hsettings : j.settings = i.settings)
    (hglobals : j.globals = i.globals) :
    Option.Rel (EndsAlike x i j) (i.complete steps c) (j.complete steps d) := by
  obtain ⟨settings', globals', state'⟩ := j
  obtain rfl : settings' = i.settings := hsettings
  obtain rfl : globals' = i.globals := hglobals
  have hend := ha.advance hthis.symm hsuper.symm i.settings steps
  unfold complete
  generalize c.advance i.settings steps = c', d.advance i.settings steps = d' at hend
  obtain ⟨scopes, rfl⟩ := hend.exists_scopes
  obtain ⟨focus, frames, s⟩ := c'
  have hheap : s.heap.Agree (· ≠ x) i.state.heap.own state'.heap.own (s.heap.withScopes scopes) := hend.heap
  -- Focus and frames are the same, so that both runs have ended or neither has.
  cases focus with
  | deliver completion =>
    cases frames with
    | nil =>
      have hglobal (name : String) (hname : name ≠ x) : (i.atState (s.withScopes scopes)).global name =
          (i.atState s).global name := by
        have hlookup : (s.withScopes scopes).heap.lookup? i.globals name = s.heap.lookup? i.globals name :=
          hheap.lookup? hname i.globals
        unfold Interpreter.global atState
        rw [hlookup]
      exact .some ⟨rfl, rfl, hglobal, ⟨rfl, hheap.size, hheap.parent, hheap.shared⟩,
        fun t => hheap.fixed t x (not_not_intro rfl), fun t => hheap.fixed' t x (not_not_intro rfl)⟩
    | cons frame frames => exact .none
  | _ => exact .none

/-- A global that a program does not mention cannot matter to it. The program has the name at most as that of a property
or a method, and it is run in two new sessions whose globals agree on all other names; the name itself may have any
values there, or none. Then both runs have printed the same at every moment, and they end alike or not at all. -/
theorem unmentioned_global (settings : Settings) (x : String) (hthis : x ≠ thisName) (hsuper : x ≠ superName)
    (globals globals' : Bindings Value) (hglobals : ∀ name, name ≠ x → globals'.find? name = globals.find? name)
    (program : Program) (hprogram : Stmt.AllMentionOnly (· ≠ x) program) :
    (∀ n, (((withGlobals settings globals').start program).advance settings n).state.output =
        (((withGlobals settings globals).start program).advance settings n).state.output) ∧
      ∀ steps, Option.Rel (EndsAlike x (withGlobals settings globals) (withGlobals settings globals'))
        ((withGlobals settings globals).interpret steps program)
        ((withGlobals settings globals').interpret steps program) := by
  have ha : ((withGlobals settings globals).start program).Agree (· ≠ x) _ _
      ((withGlobals settings globals').start program) := agree_withGlobals hglobals hprogram
  refine ⟨fun n => ?_, fun steps => complete_endsAlike hthis hsuper steps ha rfl rfl⟩
  rw [(ha.advance hthis.symm hsuper.symm settings n).same]
  rfl

/-- A class with a method `limit`, and a function that prints what the method of an instance returns. -/
def printLimit : Program :=
  [.classDecl "Box" none [.mk "limit" [] [.returnValue (some (.literal (.string "seven")))]],
    .funDecl (.mk "show" ["box"] [.print (.call (.get (.variable "box") "limit") [])]),
    .expression (.call (.variable "show") [.call (.variable "Box") []])]

/-- The program mentions `limit` as a property alone. So it makes no difference to it whether a fresh session has no
such global or a builtin of that name. -/
theorem unmentioned_global_property :
    (∃ i, (fresh ⟨3, fun _ => 0⟩).interpret 40 printLimit = some (.ok .nil, i) ∧ i.state.output = "seven\n") ∧
      Option.Rel (EndsAlike "limit" (fresh ⟨3, fun _ => 0⟩) ((fresh ⟨3, fun _ => 0⟩).define "limit" (.builtin .len)))
        ((fresh ⟨3, fun _ => 0⟩).interpret 40 printLimit)
        (((fresh ⟨3, fun _ => 0⟩).define "limit" (.builtin .len)).interpret 40 printLimit) := by
  refine ⟨⟨_, rfl, rfl⟩, ?_⟩
  rw [fresh_eq_withGlobals, define_withGlobals]
  refine (unmentioned_global ⟨3, fun _ => 0⟩ "limit" (by decide) (by decide) _ _ (fun name hname => ?_)
    printLimit ?_).2 40
  · rw [Bindings.find?_insert, if_neg hname.symm]
  · simp [printLimit, Stmt.AllMentionOnly, Stmt.MentionsOnly, FunDecl.AllMentionOnly, FunDecl.MentionsOnly,
      Expr.OptionMentionsOnly, Expr.MentionsOnly, Expr.AllMentionOnly, FunDecl.name]

end Interpreter

end Lox
