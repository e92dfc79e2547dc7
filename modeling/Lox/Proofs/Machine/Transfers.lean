import Lox.Proofs.Machine.Moves
import Lox.Proofs.Machine.Sequence

/-!
# Where breaks and returns end

Which frames absorb a break or a return on its way outwards (`MayBreak`, `MayReturn`), and which code breaks and returns
only where it is absorbed (`Stmt.IsPlaced`). Both come in two versions. In the strict one, a break in a function outside
of its loops is excluded; in the lenient one it is let through, and only what is not in a function at all is excluded. A
configuration is contained if all its code is placed well and nothing else is on its way (`Contained`); every move keeps
it so (`Moves.contained`). In the lenient version, that is a statement about expressions in any state, since all
functions there may be are placed well.
-/

namespace Lox

variable {stray mayBreak mayReturn : Prop} {st : Stmt} {d : FunDecl}

/-! ## Code -/

mutual

/-- The breaks and returns in a statement stand where they are absorbed: a break in a loop, or where breaks may be, and
a return in a function, or where returns may be. In a function outside of its loops, a break may be or not. -/
def Stmt.IsPlaced (stray mayBreak mayReturn : Prop) : Stmt → Prop
  | .varDecl _ _ => True
  | .funDecl d => d.IsPlaced stray
  | .classDecl _ _ methods => FunDecl.AllPlaced stray methods
  | .expression _ => True
  | .print _ => True
  | .block body => Stmt.AllPlaced stray mayBreak mayReturn body
  | .conditional _ thenBranch none => thenBranch.IsPlaced stray mayBreak mayReturn
  | .conditional _ thenBranch (some other) =>
    thenBranch.IsPlaced stray mayBreak mayReturn ∧ other.IsPlaced stray mayBreak mayReturn
  | .loop _ body => body.IsPlaced stray True mayReturn
  | .breakLoop => mayBreak
  | .returnValue _ => mayReturn

/-- So they do in some statements. -/
def Stmt.AllPlaced (stray mayBreak mayReturn : Prop) : List Stmt → Prop
  | [] => True
  | st :: others => st.IsPlaced stray mayBreak mayReturn ∧ Stmt.AllPlaced stray mayBreak mayReturn others

/-- So they do in the body of a function. -/
def FunDecl.IsPlaced (stray : Prop) : FunDecl → Prop
  | .mk _ _ body => Stmt.AllPlaced stray stray True body

/-- So they do in the bodies of some functions. -/
def FunDecl.AllPlaced (stray : Prop) : List FunDecl → Prop
  | [] => True
  | d :: others => d.IsPlaced stray ∧ FunDecl.AllPlaced stray others

end

mutual

/-- Where breaks and returns may be anywhere, every statement is placed well. -/
theorem Stmt.isPlaced_true : ∀ st : Stmt, st.IsPlaced True True True
  | .varDecl _ _ => trivial
  | .funDecl d => d.isPlaced_true
  | .classDecl _ _ methods => FunDecl.allPlaced_true methods
  | .expression _ => trivial
  | .print _ => trivial
  | .block body => Stmt.allPlaced_true body
  | .conditional _ thenBranch none => thenBranch.isPlaced_true
  | .conditional _ thenBranch (some other) => ⟨thenBranch.isPlaced_true, other.isPlaced_true⟩
  | .loop _ body => body.isPlaced_true
  | .breakLoop => trivial
  | .returnValue _ => trivial

/-- So are all statements. -/
theorem Stmt.allPlaced_true : ∀ body : List Stmt, Stmt.AllPlaced True True True body
  | [] => trivial
  | st :: others => ⟨st.isPlaced_true, Stmt.allPlaced_true others⟩

/-- So is every function. -/
theorem FunDecl.isPlaced_true : ∀ d : FunDecl, d.IsPlaced True
  | .mk _ _ body => Stmt.allPlaced_true body

/-- So are all functions. -/
theorem FunDecl.allPlaced_true : ∀ ds : List FunDecl, FunDecl.AllPlaced True ds
  | [] => trivial
  | d :: others => ⟨d.isPlaced_true, FunDecl.allPlaced_true others⟩

end

/-- What is placed well together is placed well one by one. -/
theorem FunDecl.isPlaced_of_mem : ∀ {ds : List FunDecl}, FunDecl.AllPlaced stray ds → d ∈ ds → d.IsPlaced stray
  | [], _, hd => nomatch hd
  | _ :: _, ⟨hfirst, hothers⟩, hd => by
    rcases List.mem_cons.1 hd with rfl | hd
    · exact hfirst
    · exact FunDecl.isPlaced_of_mem hothers hd

/-- The statements of a well-placed function are placed well in it. -/
theorem FunDecl.IsPlaced.body (hd : d.IsPlaced stray) : Stmt.AllPlaced stray stray True d.body := by
  cases d with
  | mk name parameters body => exact hd

/-- A frame that ends a loop or a function, where a break goes no further. -/
def Frame.AbsorbsBreak : Frame → Prop
  | loopBody _ _ => True
  | leaveFunction _ => True
  | _ => False

namespace Config

variable {c c' : Config} {frame : Frame} {frames pushed : List Frame} {s s' : State}

/-! ## Frames -/

/-- A break on its way to some frames is absorbed by a loop, or else by a function that may let it out as an error. -/
def MayBreak (stray : Prop) : List Frame → Prop
  | [] => False
  | .loopBody _ _ :: _ => True
  | .leaveFunction _ :: _ => stray
  | _ :: frames => MayBreak stray frames

/-- A return on its way to some frames is absorbed by a function. -/
def MayReturn : List Frame → Prop
  | [] => False
  | .leaveFunction _ :: _ => True
  | _ :: frames => MayReturn frames

/-- The code of a frame is placed well above other frames. -/
def FramePlaced (stray : Prop) (frames : List Frame) : Frame → Prop
  | .branch thenBranch elseBranch =>
    ∀ st, st = thenBranch ∨ elseBranch = some st → st.IsPlaced stray (MayBreak stray frames) (MayReturn frames)
  | .loopTest _ body => body.IsPlaced stray True (MayReturn frames)
  | .loopBody _ body => body.IsPlaced stray True (MayReturn frames)
  | .returning => MayReturn frames
  | .statements rest => Stmt.AllPlaced stray (MayBreak stray frames) (MayReturn frames) rest
  | _ => True

/-- The code of all frames is placed well. -/
def FramesPlaced (stray : Prop) : List Frame → Prop
  | [] => True
  | frame :: frames => FramePlaced stray frames frame ∧ FramesPlaced stray frames

/-- What is in focus above some frames is placed well: code, or a break, a return or an error on its way. -/
def FocusPlaced (stray : Prop) (frames : List Frame) : Focus → Prop
  | .evaluate _ => True
  | .execute st => st.IsPlaced stray (MayBreak stray frames) (MayReturn frames)
  | .deliver (.value _) => True
  | .deliver (.error e) => stray ∨ ¬e.IsStray
  | .deliver (.returned _) => MayReturn frames
  | .deliver .broke => MayBreak stray frames

/-- All code of a configuration is placed well, that of its functions included. -/
structure Contained (stray : Prop) (c : Config) : Prop where
  focus : FocusPlaced stray c.frames c.focus
  frames : FramesPlaced stray c.frames
  functions : ∀ f ∈ c.state.heap.functions, f.declaration.IsPlaced stray

/-- The code of plain frames is placed well. -/
theorem framesPlaced_plain (hplain : ∀ frame ∈ pushed, frame.IsPlain) :
    FramesPlaced stray (pushed ++ frames) ↔ FramesPlaced stray frames := by
  induction pushed with
  | nil => exact Iff.rfl
  | cons frame pushed ih =>
    have hframe := hplain frame List.mem_cons_self
    refine Iff.trans (and_iff_right ?_) (ih fun other hother => hplain other (List.mem_cons_of_mem _ hother))
    cases frame with
    | branch _ _ => exact hframe.elim
    | loopTest _ _ => exact hframe.elim
    | loopBody _ _ => exact hframe.elim
    | returning => exact hframe.elim
    | statements _ => exact hframe.elim
    | _ => trivial

/-- The work of expressions is placed well above all frames. -/
theorem focusPlaced_of_isWork {focus : Focus} (hfocus : focus.IsWork) : FocusPlaced stray frames focus := by
  cases focus with
  | evaluate e => trivial
  | execute st => exact hfocus.elim
  | deliver completion =>
    cases completion with
    | value v => trivial
    | error e => exact .inr hfocus
    | returned v => exact hfocus.elim
    | broke => exact hfocus.elim

/-- The functions of a heap are placed well, and so is one that is not there. -/
theorem isPlaced_function {h : Heap} (hfunctions : ∀ f ∈ h.functions, f.declaration.IsPlaced stray) (f : FunctionId) :
    (h.function f).declaration.IsPlaced stray := by
  unfold Heap.function
  cases hf : h.functions[f.index]? with
  | none => trivial
  | some closure => exact hfunctions closure (Array.mem_of_getElem? hf)

/-! ## Moves -/

/-- The work of an expression is contained; a function that is entered absorbs returns. -/
theorem Proceeds.contained (hproceeds : Proceeds frames s c') (hframes : FramesPlaced stray frames)
    (hfunctions : ∀ f ∈ s.heap.functions, f.declaration.IsPlaced stray) : c'.Contained stray := by
  cases hproceeds with
  | work focus pushed hfocus hpushed hs =>
    refine ⟨focusPlaced_of_isWork hfocus, (framesPlaced_plain hpushed).2 hframes, ?_⟩
    rw [hs.functions]
    exact hfunctions
  | enter f receiver arguments pushed s' hpushed hs =>
    have hfunctions' : ∀ f ∈ s'.heap.functions, f.declaration.IsPlaced stray := hs.functions ▸ hfunctions
    refine ⟨trivial, ⟨(isPlaced_function hfunctions' f).body, trivial, (framesPlaced_plain hpushed).2 hframes⟩, ?_⟩
    obtain ⟨scopes, hheap⟩ := heap_enter_eq_scopes f receiver arguments (pushed ++ frames) s'
    rw [hheap]
    exact hfunctions'

/-- Every move keeps a configuration contained. -/
theorem Moves.contained (hmove : Moves c c') (hc : c.Contained stray) : c'.Contained stray := by
  obtain ⟨hfocus, hframes, hfunctions⟩ := hc
  cases hmove with
  | work taken htaken hproceeds => exact hproceeds.contained ((framesPlaced_plain htaken).1 hframes) hfunctions
  | assign => exact ⟨trivial, hframes.2, hfunctions⟩
  | define => exact ⟨trivial, hframes.2, hfunctions⟩
  | declare => exact ⟨trivial, hframes, hfunctions⟩
  | beginDeclaration => exact ⟨trivial, ⟨trivial, hframes⟩, hfunctions⟩
  -- Placement is a matter of the texts of functions; a new one has the text that was in focus.
  | declareFunction =>
    refine ⟨trivial, hframes, fun f hf => ?_⟩
    rcases Array.mem_push.1 hf with hf | rfl
    · exact hfunctions f hf
    · exact hfocus
  | declareClass =>
    refine ⟨trivial, hframes, fun f hf => ?_⟩
    rcases Array.mem_append.1 hf with hf | hf
    · exact hfunctions f hf
    · obtain ⟨d, hd, rfl⟩ := List.mem_map.1 (List.mem_toArray.1 hf)
      exact FunDecl.isPlaced_of_mem hfocus hd
  | beginBlock => exact ⟨trivial, ⟨hfocus, trivial, hframes⟩, hfunctions⟩
  | @beginConditional test thenBranch elseBranch frames s =>
    refine ⟨trivial, ⟨fun st hst => ?_, hframes⟩, hfunctions⟩
    cases elseBranch with
    | none =>
      rcases hst with rfl | hother
      · exact hfocus
      · exact nomatch hother
    | some other =>
      rcases hst with rfl | hother
      · exact hfocus.1
      · exact Option.some.inj hother ▸ hfocus.2
  | beginLoop => exact ⟨trivial, ⟨hfocus, hframes⟩, hfunctions⟩
  -- What allows the statement allows the completion that it turns into.
  | beginBreak => exact ⟨hfocus, hframes, hfunctions⟩
  | beginReturn => exact ⟨hfocus, hframes, hfunctions⟩
  | beginReturnValue => exact ⟨trivial, ⟨hfocus, hframes⟩, hfunctions⟩
  | beginExpression hframe =>
    exact ⟨trivial, (framesPlaced_plain (plain_singleton hframe)).2 hframes, hfunctions⟩
  | branch hst => exact ⟨hframes.1 _ hst, hframes.2, hfunctions⟩
  | noBranch => exact ⟨trivial, hframes.2, hfunctions⟩
  | loopHolds => exact ⟨hframes.1, hframes, hfunctions⟩
  | loopEnds => exact ⟨trivial, hframes.2, hfunctions⟩
  | loopAgain => exact ⟨trivial, hframes, hfunctions⟩
  | loopBroken => exact ⟨trivial, hframes.2, hfunctions⟩
  | returning => exact ⟨hframes.1, hframes.2, hfunctions⟩
  | noStatement => exact ⟨trivial, hframes.2, hfunctions⟩
  | statement => exact ⟨hframes.1.1, ⟨hframes.1.2, hframes.2⟩, hfunctions⟩
  | @leaveBlock completion outer frames s =>
    refine ⟨?_, hframes.2, hfunctions⟩
    cases completion with
    | value v => trivial
    | _ => exact hfocus
  -- A function absorbs a return, and makes an error of a break.
  | @leaveFunction completion outer frames s =>
    refine ⟨?_, hframes.2, hfunctions⟩
    cases completion with
    | value v => trivial
    | returned v => trivial
    | broke => exact .inl hfocus
    | error e => exact hfocus
  | fail he => exact ⟨.inr he, hframes, hfunctions⟩
  -- A return does not pass a function, and a break passes neither a function nor a loop.
  | @pass completion frame frames s s' hblock hfunction hloop hs =>
    refine ⟨?_, hframes.2, hs.functions ▸ hfunctions⟩
    cases completion with
    | value v => trivial
    | error e => exact hfocus
    | returned v =>
      cases frame with
      | leaveFunction outer => exact absurd rfl (hfunction outer)
      | _ => exact hfocus
    | broke =>
      cases frame with
      | leaveFunction outer => exact absurd rfl (hfunction outer)
      | loopBody test body => exact absurd rfl (hloop test body rfl)
      | _ => exact hfocus
  | rest => exact ⟨hfocus, hframes, hfunctions⟩

/-- Every run keeps a configuration contained. -/
theorem advance_contained (settings : Settings) (n : Nat) (hc : c.Contained stray) :
    (c.advance settings n).Contained stray :=
  advance_keeps (p := Contained stray) (fun c => (step_moves settings c).contained) n hc

/-! ## On the way outwards -/

/-- A frame through which a completion passes; the scope and the depth may change. -/
def Passes (completion : Completion) (frame : Frame) : Prop :=
  ∀ frames s, ∃ s', unwind frame completion frames s = ⟨.deliver completion, frames, s'⟩ ∧ s'.heap = s.heap ∧
    s'.output = s.output

/-- An error passes through every frame. -/
theorem passes_error (e : RuntimeError) (frame : Frame) : Passes (.error e) frame := by
  intro frames s
  cases frame <;> exact ⟨_, rfl, rfl, rfl⟩

/-- A break passes through every frame that ends neither a loop nor a function. -/
theorem passes_broke (hframe : ¬frame.AbsorbsBreak) : Passes .broke frame := by
  intro frames s
  cases frame with
  | loopBody test body => exact absurd trivial hframe
  | leaveFunction outer => exact absurd trivial hframe
  | _ => exact ⟨_, rfl, rfl, rfl⟩

/-- What passes through each of some frames passes through all of them, and nothing is printed or changed meanwhile. -/
theorem exists_advance_of_passes (settings : Settings) (completion : Completion) (hvalue : ∀ v, completion ≠ .value v)
    {inner : List Frame} (hinner : ∀ frame ∈ inner, Passes completion frame) (rest : List Frame) (s : State) :
    ∃ n s', (⟨.deliver completion, inner ++ rest, s⟩ : Config).advance settings n = ⟨.deliver completion, rest, s'⟩ ∧
      s'.heap = s.heap ∧ s'.output = s.output := by
  induction inner generalizing s with
  | nil => exact ⟨0, s, rfl, rfl, rfl⟩
  | cons frame inner ih =>
    obtain ⟨s₁, hunwind, hheap₁, houtput₁⟩ := hinner frame List.mem_cons_self (inner ++ rest) s
    obtain ⟨n, s', hn, hheap, houtput⟩ := ih (fun other hother => hinner other (List.mem_cons_of_mem _ hother)) s₁
    refine ⟨n + 1, s', ?_, hheap.trans hheap₁, houtput.trans houtput₁⟩
    have hstep : step settings ⟨.deliver completion, frame :: (inner ++ rest), s⟩ =
        ⟨.deliver completion, inner ++ rest, s₁⟩ := by
      cases completion with
      | value v => exact absurd rfl (hvalue v)
      | _ => exact hunwind
    rw [List.cons_append, advance_succ not_isFinal_cons, hstep, hn]

/-- A break in a function outside of its loops is an error for the caller. -/
theorem exists_advance_strayBreak (settings : Settings) {inner : List Frame}
    (hinner : ∀ frame ∈ inner, ¬frame.AbsorbsBreak) (outer : ScopeId) (rest : List Frame) (s : State) :
    ∃ n s', (⟨.execute .breakLoop, inner ++ .leaveFunction outer :: rest, s⟩ : Config).advance settings n =
      raise .invalidBreak rest s' ∧ s'.scope = outer ∧ s'.heap = s.heap ∧ s'.output = s.output := by
  obtain ⟨n, s', hn, hheap, houtput⟩ := exists_advance_of_passes settings .broke nofun
    (fun frame hframe => passes_broke (hinner frame hframe)) (.leaveFunction outer :: rest) s
  have hbegin : (⟨.execute .breakLoop, inner ++ .leaveFunction outer :: rest, s⟩ : Config).advance settings 1 =
      ⟨.deliver .broke, inner ++ .leaveFunction outer :: rest, s⟩ := rfl
  have hleave : (⟨.deliver .broke, .leaveFunction outer :: rest, s'⟩ : Config).advance settings 1 =
      raise .invalidBreak rest { s' with scope := outer } := rfl
  exact ⟨1 + (n + 1), { s' with scope := outer }, by rw [advance_add, hbegin, advance_add, hn, hleave], rfl, hheap,
    houtput⟩

end Config

end Lox
