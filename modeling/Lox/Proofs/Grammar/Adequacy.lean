import Lox.Proofs.Grammar.Readings
import Lox.Proofs.Grammar.Spelling

/-!
# Enough steps

Reading ends before its steps are used up if it is given twenty for each item of the stream and a few more, and whoever
panics has reported something. `Ends` is what is shown of every parser. Every one of them consumes an item, or it is the
end mark that it panics at; only what goes on with something read before may consume nothing. So the calls that a parser
makes precede its own, and it ends if they do (`endsAs_body`). It does not matter then with which readers it makes them,
as long as they read alike: the parsers of enough steps read like the parser that needs none (`endsAs_within`).
-/

namespace Lox

namespace TokenStream

variable {s : TokenStream}

/-- A stream that starts with a token is longer than what follows. -/
theorem Starts.length_advance_lt {t : Token} (h : s.Starts t) : s.advance.length < s.length := by
  obtain ⟨item, items, hs, -⟩ := h
  simp [length, advance, hs]

/-- A stream gets shorter unless nothing is left. -/
theorem length_advance_lt_max (s : TokenStream) : s.advance.length < max s.length 1 := by
  simp only [length, advance, List.length_tail]
  omega

/-- Where something is left that is not the end mark, the stream is not at its end. -/
theorem length_pos_of_not_isAtEof (h : s.isAtEof = false) : 0 < s.length := by
  cases hs : s.upcoming with
  | nil => simp [isAtEof, peek, hs, Item.eof, Item.token?, Token.isEof] at h
  | cons item items => simp [length, hs]

end TokenStream

namespace Parser

open TokenStream

variable {α β : Type} {p p' q q' : Parser α} {f f' : α → Parser β} {s : TokenStream} {m bound : Nat} {symbol : Symbol}
  {keyword : Keyword} {fault : Fault}

/-! ## Parsers that end -/

/-- The parser has steps enough. What it leaves is shorter than the bound, after a panic unless nothing is left; and if it
panics it has reported something. -/
def Ends (p : Parser α) (s : TokenStream) (bound : Nat) : Prop :=
  match p s with
  | .ok _ rest _ => rest.length < bound
  | .panic rest reports => rest.length < max bound 1 ∧ reports ≠ []
  | .starved => False

/-- The parser ends, and another one does as it does. -/
structure EndsAs (p p' : Parser α) (s : TokenStream) (bound : Nat) : Prop where
  ends : Ends p s bound
  same : p s = p' s

/-- A parser that ends is not starved. -/
theorem Ends.ne_starved (h : Ends p s bound) : p s ≠ .starved := by
  intro hp
  simp only [Ends, hp] at h

/-- A parser that ends does not panic in silence. -/
theorem Ends.ne_panic (h : Ends p s bound) {rest : TokenStream} : p s ≠ .panic rest [] := by
  intro hp
  simp [Ends, hp] at h

/-- A parser that ends does as it does itself. -/
theorem Ends.alike (h : Ends p s bound) : EndsAs p p s bound :=
  ⟨h, rfl⟩

/-- What does as a parser that ends ends as it does. -/
theorem Ends.of_eq (h : Ends p' s bound) (heq : p s = p' s) : EndsAs p p' s bound := by
  refine ⟨?_, heq⟩
  rw [Ends, heq]
  exact h

/-- How parsers that end as one another end. -/
theorem EndsAs.outcome (h : EndsAs p p' s bound) :
    (∃ a rest reports, p s = .ok a rest reports ∧ p' s = .ok a rest reports ∧ rest.length < bound) ∨
      ∃ rest reports, p s = .panic rest reports ∧ p' s = .panic rest reports ∧ rest.length < max bound 1 ∧
        reports ≠ [] := by
  obtain ⟨hends, hsame⟩ := h
  rw [← hsame]
  unfold Ends at hends
  cases hp : p s with
  | ok a rest reports =>
    rw [hp] at hends
    exact .inl ⟨a, rest, reports, rfl, rfl, hends⟩
  | panic rest reports =>
    rw [hp] at hends
    exact .inr ⟨rest, reports, rfl, rfl, hends⟩
  | starved => simp only [hp] at hends

/-- Parsers that read the same end as one another. -/
theorem endsAs_of_ok {a : α} {rest : TokenStream} {reports : List Diagnostic} (hp : p s = .ok a rest reports)
    (hp' : p' s = .ok a rest reports) (hrest : rest.length < bound) : EndsAs p p' s bound := by
  refine ⟨?_, hp.trans hp'.symm⟩
  rw [Ends, hp]
  exact hrest

/-- Parsers that panic alike, and not in silence, end as one another. -/
theorem endsAs_of_panic {rest : TokenStream} {reports : List Diagnostic} (hp : p s = .panic rest reports)
    (hp' : p' s = .panic rest reports) (hrest : rest.length < max bound 1) (hreports : reports ≠ []) :
    EndsAs p p' s bound := by
  refine ⟨?_, hp.trans hp'.symm⟩
  rw [Ends, hp]
  exact ⟨hrest, hreports⟩

/-- The bound may be raised. -/
theorem EndsAs.mono (h : EndsAs p p' s m) (hm : m ≤ bound) : EndsAs p p' s bound := by
  obtain ⟨a, rest, reports, hp, hp', hrest⟩ | ⟨rest, reports, hp, hp', hrest, hreports⟩ := h.outcome
  · exact endsAs_of_ok hp hp' (Nat.lt_of_lt_of_le hrest hm)
  · exact endsAs_of_panic hp hp' (by omega) hreports

/-- Nothing is needed for what is known already. -/
theorem endsAs_pure {a : α} (h : s.length < bound) : EndsAs (pure a) (pure a) s bound :=
  ⟨h, rfl⟩

/-- A parser that fails has said why. -/
theorem endsAs_fail {position : Position} (h : s.length < max bound 1) :
    EndsAs (fail position fault : Parser α) (fail position fault) s bound :=
  ⟨⟨h, List.cons_ne_nil _ _⟩, rfl⟩

/-- Parsers that go on as others, further on and with reports before, end with them. -/
theorem EndsAs.of_eq_after {mid : TokenStream} (reports : List Diagnostic) (hq : EndsAs q q' mid bound)
    (hp : p s = (q mid).after reports) (hp' : p' s = (q' mid).after reports) : EndsAs p p' s bound := by
  obtain ⟨a, rest, more, hread, hread', hrest⟩ | ⟨rest, more, hpanic, hpanic', hrest, hmore⟩ := hq.outcome
  · rw [hread] at hp
    rw [hread'] at hp'
    exact endsAs_of_ok hp hp' hrest
  · rw [hpanic] at hp
    rw [hpanic'] at hp'
    exact endsAs_of_panic hp hp' hrest (List.append_ne_nil_of_right_ne_nil _ hmore)

/-- One parser after another ends if the second ends wherever the first may end. -/
theorem EndsAs.bind (hp : EndsAs p p' s m) (hm : m ≤ bound)
    (hf : ∀ a mid, mid.length < m → EndsAs (f a) (f' a) mid bound) : EndsAs (p >>= f) (p' >>= f') s bound := by
  obtain ⟨a, mid, reports, hread, hread', hmid⟩ | ⟨mid, reports, hpanic, hpanic', hmid, hreports⟩ := hp.outcome
  · refine (hf a mid hmid).of_eq_after reports ?_ ?_
    · show Parser.bind p f s = _
      rw [Parser.bind, hread]
    · show Parser.bind p' f' s = _
      rw [Parser.bind, hread']
  · have hbind : (p >>= f) s = .panic mid reports := by
      show Parser.bind p f s = _
      rw [Parser.bind, hpanic]
    have hbind' : (p' >>= f') s = .panic mid reports := by
      show Parser.bind p' f' s = _
      rw [Parser.bind, hpanic']
    exact endsAs_of_panic hbind hbind' (by omega) hreports

/-- What follows something that is read ends as it does on its own. -/
theorem endsAs_bind_of_reads {a : α} {mid : TokenStream} (hp : Reads p s a mid)
    (hf : EndsAs (f a) (f' a) mid bound) : EndsAs (p >>= f) (p >>= f') s bound := by
  refine hf.of_eq_after [] ?_ ?_
  · show Parser.bind p f s = _
    rw [Parser.bind, hp]
  · show Parser.bind p f' s = _
    rw [Parser.bind, hp]

/-- What follows a report ends as it does on its own. -/
theorem endsAs_bind_report {f f' : Unit → Parser β} {position : Position} (hf : EndsAs (f ()) (f' ()) s bound) :
    EndsAs (report position fault >>= f) (report position fault >>= f') s bound :=
  hf.of_eq_after _ rfl rfl

/-- What follows a report on a condition ends as it does on its own. -/
theorem endsAs_bind_reportIf {f f' : Unit → Parser β} {condition : Bool} (hf : EndsAs (f ()) (f' ()) s bound) :
    EndsAs (reportIf condition fault >>= f) (reportIf condition fault >>= f') s bound :=
  hf.of_eq_after _ reportIf_bind reportIf_bind

/-- What follows an attempt ends if it does after a success and after a panic. -/
theorem EndsAs.bind_attempt {f f' : Option α → Parser β} (hp : EndsAs p p' s m)
    (hsome : ∀ a mid, mid.length < m → EndsAs (f (some a)) (f' (some a)) mid bound)
    (hnone : ∀ mid, mid.length < max m 1 → EndsAs (f none) (f' none) mid bound) :
    EndsAs (attempt p >>= f) (attempt p' >>= f') s bound := by
  obtain ⟨a, mid, reports, hread, hread', hmid⟩ | ⟨mid, reports, hpanic, hpanic', hmid, -⟩ := hp.outcome
  · refine (hsome a mid hmid).of_eq_after reports ?_ ?_
    · show Parser.bind (attempt p) f s = _
      rw [Parser.bind, attempt, hread]
    · show Parser.bind (attempt p') f' s = _
      rw [Parser.bind, attempt, hread']
  · refine (hnone mid hmid).of_eq_after reports ?_ ?_
    · show Parser.bind (attempt p) f s = _
      rw [Parser.bind, attempt, hpanic]
    · show Parser.bind (attempt p') f' s = _
      rw [Parser.bind, attempt, hpanic']

/-- A choice by a symbol ends if both branches do. -/
theorem endsAs_ifSymbol (hp : s.advance.length < s.length → EndsAs p p' s.advance bound) (hq : EndsAs q q' s bound) :
    EndsAs (do if ← takeSymbol symbol then p else q) (do if ← takeSymbol symbol then p' else q') s bound := by
  by_cases h : s.Starts (.symbol symbol)
  · exact endsAs_bind_of_reads (takeSymbol_of_starts h) (by simpa using hp h.length_advance_lt)
  · exact endsAs_bind_of_reads (takeSymbol_of_not_starts h) (by simpa using hq)

/-- A choice by a keyword ends if both branches do. -/
theorem endsAs_ifKeyword (hp : s.advance.length < s.length → EndsAs p p' s.advance bound) (hq : EndsAs q q' s bound) :
    EndsAs (do if ← takeKeyword keyword then p else q) (do if ← takeKeyword keyword then p' else q') s bound := by
  by_cases h : s.Starts (.keyword keyword)
  · exact endsAs_bind_of_reads (takeKeyword_of_starts h) (by simpa using hp h.length_advance_lt)
  · exact endsAs_bind_of_reads (takeKeyword_of_not_starts h) (by simpa using hq)

/-- What follows a symbol, or its absence, ends if it does in either case. -/
theorem endsAs_bind_takeSymbol? {f f' : Option Position → Parser β}
    (hsome : s.advance.length < s.length →
      EndsAs (f (some s.peek.position)) (f' (some s.peek.position)) s.advance bound)
    (hnone : EndsAs (f none) (f' none) s bound) :
    EndsAs (takeSymbol? symbol >>= f) (takeSymbol? symbol >>= f') s bound := by
  by_cases h : s.Starts (.symbol symbol)
  · exact endsAs_bind_of_reads (takeSymbol?_of_starts h) (hsome h.length_advance_lt)
  · exact endsAs_bind_of_reads (takeSymbol?_of_not_starts h) hnone

/-- What follows something taken, or its absence, ends if it does in either case. -/
theorem endsAs_bind_takeSome {g : Token → Option α} {f f' : Option α → Parser β} (hg : g .eof = none)
    (hsome : ∀ a, s.advance.length < s.length → EndsAs (f (some a)) (f' (some a)) s.advance bound)
    (hnone : EndsAs (f none) (f' none) s bound) : EndsAs (takeSome g >>= f) (takeSome g >>= f') s bound := by
  by_cases h : ∃ t, s.Starts t ∧ (g t).isSome
  · obtain ⟨t, ht, hgt⟩ := h
    obtain ⟨a, ha⟩ := Option.isSome_iff_exists.1 hgt
    exact endsAs_bind_of_reads (takeSome_of_starts ht ha) (hsome a ht.length_advance_lt)
  · have hall : ∀ t, s.Starts t → g t = none := fun t ht =>
      Option.not_isSome_iff_eq_none.1 fun hgt => h ⟨t, ht, hgt⟩
    exact endsAs_bind_of_reads (takeSome_of_not_starts hg hall) hnone

/-- Where a symbol is expected, an item is consumed, or its absence is reported. -/
theorem endsAs_expectSymbol : EndsAs (expectSymbol symbol fault) (expectSymbol symbol fault) s s.length := by
  refine endsAs_bind_of_reads (reads_next.2 ⟨rfl, rfl⟩) ?_
  cases hpeek : s.peek.content with
  | error e => exact endsAs_fail s.length_advance_lt_max
  | ok t =>
    by_cases ht : t.isSymbol symbol = true
    · simp only [ht, if_true]
      obtain rfl := Token.isSymbol_iff.1 ht
      exact endsAs_pure (starts_of_content_peek hpeek nofun).length_advance_lt
    · simp only [ht]
      exact endsAs_fail s.length_advance_lt_max

/-- Where a name is expected, an item is consumed, or its absence is reported. -/
theorem endsAs_expectIdentifier : EndsAs expectIdentifier expectIdentifier s s.length := by
  refine endsAs_bind_of_reads (reads_next.2 ⟨rfl, rfl⟩) ?_
  split
  · rename_i name hpeek
    exact endsAs_pure (starts_of_content_peek hpeek nofun).length_advance_lt
  · exact endsAs_fail s.length_advance_lt_max

/-- A panic behind a report, with something tried in between for what else there is to report, is not silent. -/
theorem endsAs_report_attempt_panic {position : Position} (hp : EndsAs p p' s m) (hm : m ≤ bound) :
    EndsAs
      (do
        report position fault
        let _ ← attempt p
        panic : Parser β)
      (do
        report position fault
        let _ ← attempt p'
        panic) s bound := by
  have hpanics {q : Parser α} {o : Option α} {rest : TokenStream} {reports : List Diagnostic}
      (hq : attempt q s = .ok o rest reports) :
      (do
        report position fault
        let _ ← attempt q
        panic : Parser β) s = .panic rest (⟨position, fault⟩ :: reports) := by
    show Parser.bind (report position fault) (fun _ => Parser.bind (attempt q) fun _ => panic) s = _
    simp only [Parser.bind, report, hq, panic, ParsedOn.after, List.append_nil, List.singleton_append]
  obtain ⟨a, rest, reports, hread, hread', hrest⟩ | ⟨rest, reports, hpanic, hpanic', hrest, -⟩ := hp.outcome
  · have htried : attempt p s = .ok (some a) rest reports := by rw [attempt, hread]
    have htried' : attempt p' s = .ok (some a) rest reports := by rw [attempt, hread']
    exact endsAs_of_panic (hpanics htried) (hpanics htried') (by omega) (List.cons_ne_nil _ _)
  · have htried : attempt p s = .ok none rest reports := by rw [attempt, hpanic]
    have htried' : attempt p' s = .ok none rest reports := by rw [attempt, hpanic']
    exact endsAs_of_panic (hpanics htried) (hpanics htried') (by omega) (List.cons_ne_nil _ _)

/-- Skipping to the next semicolon consumes something unless nothing is left. -/
theorem endsAs_skipPastSemicolon : EndsAs skipPastSemicolon skipPastSemicolon s (max s.length 1) := by
  refine Ends.alike ?_
  have hdrop := (List.dropWhile_suffix (fun i : Item => !i.token?.any (Token.isSymbol .semicolon))
    (l := s.upcoming)).length_le
  show (List.dropWhile _ s.upcoming).tail.length < max s.upcoming.length 1
  rw [List.length_tail]
  omega

/-- The parent of a class ends. -/
theorem endsAs_parentClass : EndsAs parentClass parentClass s (s.length + 1) := by
  refine endsAs_ifSymbol (fun hlt => ?_) (endsAs_pure (Nat.lt_succ_self _))
  exact endsAs_expectIdentifier.bind (by omega) fun name mid hmid => endsAs_pure (by omega)

end Parser

namespace Reading

open Lox.Parser Lox.TokenStream

/-! ## What calls leave -/

/-- Whether what is read has at least one item, so that it cannot be read from nothing. -/
def consumes {α : Type} : Reading α → Bool
  | operationsAfter _ _ => false
  | accessesAfter _ => false
  | parametersFrom _ => false
  | methods => false
  | program => false
  | _ => true

/-- What is left is shorter than this. -/
def bound {α : Type} (r : Reading α) (s : TokenStream) : Nat :=
  if r.consumes then s.length else s.length + 1

variable {α β : Type} {call call' : ∀ {β : Type}, Reading β → Parser β} {r : Reading α} {s mid : TokenStream} {n m : Nat}
  {e e' : Parser Expr}

/-- The calls that precede one end, and with both readers alike. -/
def EndsBelow (call call' : ∀ {β : Type}, Reading β → Parser β) (r : Reading α) (s : TokenStream) : Prop :=
  ∀ {β : Type} (r' : Reading β) (s' : TokenStream), r'.Precedes s' r s → EndsAs (call r') (call' r') s' (r'.bound s')

/-- A call of what has at least one item. -/
theorem EndsBelow.strict (h : EndsBelow call call' r s) (r' : Reading β) (hconsumes : r'.consumes = true)
    (hmid : r'.Precedes mid r s) : EndsAs (call r') (call' r') mid mid.length := by
  have hends := h r' mid hmid
  rwa [bound, if_pos hconsumes] at hends

/-- A call of anything. -/
theorem EndsBelow.lax (h : EndsBelow call call' r s) (r' : Reading β) (hmid : r'.Precedes mid r s) :
    EndsAs (call r') (call' r') mid (mid.length + 1) := by
  refine (h r' mid hmid).mono ?_
  unfold bound
  split <;> omega

/-! ## Expressions -/

/-- Assignments end. -/
theorem endsAs_assignment (h : EndsBelow call call' (expressionAt .assignment) s) :
    EndsAs (body call (expressionAt .assignment)) (body call' (expressionAt .assignment)) s s.length := by
  refine (h.strict (expressionAt (.between .or)) rfl (.inr ⟨rfl, by decide⟩)).bind (Nat.le_refl _)
    fun target mid hmid => ?_
  refine endsAs_bind_takeSymbol? (fun hlt => ?_) (endsAs_pure hmid)
  refine (h.strict (expressionAt .assignment) rfl (.inl (by omega))).bind (by omega) fun value mid' hmid' => ?_
  cases target.assignment? value with
  | some e => exact endsAs_pure (by omega)
  | none => exact endsAs_bind_report (endsAs_pure (by omega))

/-- What is read between operators ends. -/
theorem endsAs_between {level : InfixLevel} (h : EndsBelow call call' (expressionAt (.between level)) s) :
    EndsAs (body call (expressionAt (.between level))) (body call' (expressionAt (.between level))) s s.length := by
  have hrank : level.operand.rank < (Level.between level).rank := by
    rw [Grammar.operand_eq_operandLevel]
    exact Grammar.operandLevel_rank_lt level
  refine (h.strict (expressionAt level.operand) rfl (.inr ⟨rfl, hrank⟩)).bind (Nat.le_refl _) fun first mid hmid => ?_
  exact (h.lax (operationsAfter level first) (.inl hmid)).mono hmid

/-- Ternaries end. -/
theorem endsAs_ternary (h : EndsBelow call call' (expressionAt .ternary) s) :
    EndsAs (body call (expressionAt .ternary)) (body call' (expressionAt .ternary)) s s.length := by
  refine (h.strict (expressionAt (.between .comparison)) rfl (.inr ⟨rfl, by decide⟩)).bind (Nat.le_refl _)
    fun test mid hmid => ?_
  refine endsAs_ifSymbol (fun hlt => ?_) (endsAs_pure hmid)
  refine (h.strict (expressionAt (.between .comparison)) rfl (.inl (by omega))).bind (by omega)
    fun ifTrue mid₁ hmid₁ => ?_
  refine endsAs_expectSymbol.bind (by omega) fun _ mid₂ hmid₂ => ?_
  refine (h.strict (expressionAt (.between .comparison)) rfl (.inl (by omega))).bind (by omega)
    fun ifFalse mid₃ hmid₃ => ?_
  exact endsAs_pure (by omega)

/-- What is read behind prefix signs ends. -/
theorem endsAs_unary (h : EndsBelow call call' (expressionAt .unary) s) :
    EndsAs (body call (expressionAt .unary)) (body call' (expressionAt .unary)) s s.length := by
  refine endsAs_bind_takeSome rfl (fun op hlt => ?_) (h.strict (expressionAt .call) rfl (.inr ⟨rfl, by decide⟩))
  exact (h.strict (expressionAt .unary) rfl (.inl hlt)).bind (by omega) fun operand mid hmid => endsAs_pure (by omega)

/-- Chains of calls and accesses end. -/
theorem endsAs_call (h : EndsBelow call call' (expressionAt .call) s) :
    EndsAs (body call (expressionAt .call)) (body call' (expressionAt .call)) s s.length := by
  refine (h.strict (expressionAt .primary) rfl (.inr ⟨rfl, by decide⟩)).bind (Nat.le_refl _) fun callee mid hmid => ?_
  exact (h.lax (accessesAfter callee) (.inl hmid)).mono hmid

/-- What stands on its own ends. -/
theorem endsAs_primary (h : EndsBelow call call' (expressionAt .primary) s) :
    EndsAs (body call (expressionAt .primary)) (body call' (expressionAt .primary)) s s.length := by
  refine endsAs_bind_of_reads (reads_next.2 ⟨rfl, rfl⟩) ?_
  cases hpeek : s.peek.content with
  | error e => exact endsAs_fail s.length_advance_lt_max
  | ok t =>
    -- The end mark is the one item that is looked at and stays; any other leaves a shorter stream behind.
    by_cases heof : t = .eof
    · subst heof
      exact endsAs_fail s.length_advance_lt_max
    have hlt := (starts_of_content_peek hpeek heof).length_advance_lt
    cases hexpression : t.expression? with
    | some e =>
      simp only [hexpression]
      exact endsAs_pure hlt
    | none =>
      simp only [hexpression]
      split
      · refine endsAs_expectSymbol.bind (by omega) fun _ mid hmid => ?_
        exact endsAs_expectIdentifier.bind (by omega) fun method mid' hmid' => endsAs_pure (by omega)
      · refine (h.strict (expressionAt .assignment) rfl (.inl hlt)).bind (by omega) fun inner mid hmid => ?_
        exact endsAs_expectSymbol.bind (by omega) fun _ mid' hmid' => endsAs_pure (by omega)
      · refine (h.strict (expressions .elements) rfl (.inl hlt)).bind (by omega) fun items mid hmid => ?_
        exact endsAs_pure (by omega)
      · -- An operator whose left operand is missing is reported, and the right one is read for what it has to report.
        split
        · exact endsAs_report_attempt_panic (h.strict (expressionAt .assignment) rfl (.inl hlt)) (by omega)
        · exact endsAs_fail s.length_advance_lt_max

/-- The operators of a level end. -/
theorem endsAs_operationsAfter {level : InfixLevel} {left : Expr}
    (h : EndsBelow call call' (operationsAfter level left) s) :
    EndsAs (body call (operationsAfter level left)) (body call' (operationsAfter level left)) s (s.length + 1) := by
  refine endsAs_bind_takeSome (by cases level <;> rfl) (fun op hlt => ?_) (endsAs_pure (Nat.lt_succ_self _))
  refine (h.strict (expressionAt level.operand) rfl (.inl hlt)).bind (by omega) fun right mid hmid => ?_
  exact (h.lax (operationsAfter level (op.apply left right)) (.inl (by omega))).mono (by omega)

/-- Calls and accesses end. -/
theorem endsAs_accessesAfter {object : Expr} (h : EndsBelow call call' (accessesAfter object) s) :
    EndsAs (body call (accessesAfter object)) (body call' (accessesAfter object)) s (s.length + 1) := by
  refine endsAs_ifSymbol (fun hlt => ?_) <| endsAs_ifSymbol (fun hlt => ?_) <| endsAs_ifSymbol (fun hlt => ?_) ?_
  · refine (h.strict (expressions .arguments) rfl (.inl hlt)).bind (by omega) fun arguments mid hmid => ?_
    exact (h.lax (accessesAfter _) (.inl (by omega))).mono (by omega)
  · refine endsAs_expectIdentifier.bind (by omega) fun name mid hmid => ?_
    exact (h.lax (accessesAfter _) (.inl (by omega))).mono (by omega)
  · refine (h.strict (expressionAt .assignment) rfl (.inl hlt)).bind (by omega) fun position mid hmid => ?_
    refine endsAs_expectSymbol.bind (by omega) fun _ mid' hmid' => ?_
    exact (h.lax (accessesAfter _) (.inl (by omega))).mono (by omega)
  · exact endsAs_pure (Nat.lt_succ_self _)

/-- Lists of expressions end. -/
theorem endsAs_expressions {listing : Listing} (h : EndsBelow call call' (expressions listing) s) :
    EndsAs (body call (expressions listing)) (body call' (expressions listing)) s s.length :=
  endsAs_ifSymbol (fun hlt => endsAs_pure hlt) (h.strict (expressionsFrom listing 0) rfl (.inr ⟨rfl, Nat.lt_succ_self 11⟩))

/-- The expressions of a list end. -/
theorem endsAs_expressionsFrom {listing : Listing} {count : Nat}
    (h : EndsBelow call call' (expressionsFrom listing count) s) :
    EndsAs (body call (expressionsFrom listing count)) (body call' (expressionsFrom listing count)) s s.length := by
  refine endsAs_bind_reportIf ?_
  refine (h.strict (expressionAt .assignment) rfl (.inr ⟨rfl, Nat.lt_succ_self 10⟩)).bind (Nat.le_refl _)
    fun first mid hmid => ?_
  refine endsAs_ifSymbol (fun hlt => ?_) ?_
  · refine (h.strict (expressionsFrom listing (count + 1)) rfl (.inl (by omega))).bind (by omega)
      fun others mid' hmid' => ?_
    exact endsAs_pure (by omega)
  · exact endsAs_expectSymbol.bind (by omega) fun _ mid' hmid' => endsAs_pure (by omega)

/-! ## Parts of statements -/

/-- An expression and the symbol behind it end. -/
theorem endsAs_closed {symbol : Symbol} {fault : Fault} {result : Expr → α} (he : EndsAs e e' s s.length) :
    EndsAs (closed e symbol fault result) (closed e' symbol fault result) s s.length := by
  refine he.bind (Nat.le_refl _) fun value mid hmid => ?_
  exact endsAs_expectSymbol.bind (by omega) fun _ mid' hmid' => endsAs_pure (by omega)

/-- An expression that may be missing ends with the symbol behind it. -/
theorem endsAs_optional {symbol : Symbol} {fault : Fault} {result : Option Expr → α} (he : EndsAs e e' s s.length) :
    EndsAs (optional e symbol fault result) (optional e' symbol fault result) s s.length :=
  endsAs_ifSymbol (fun hlt => endsAs_pure hlt) (endsAs_closed he)

/-- Variable declarations end. -/
theorem endsAs_variableDeclaration (he : ∀ mid, mid.length < s.length → EndsAs e e' mid mid.length) :
    EndsAs (variableDeclaration e) (variableDeclaration e') s s.length := by
  refine endsAs_expectIdentifier.bind (Nat.le_refl _) fun name mid hmid => ?_
  refine endsAs_ifSymbol (fun hlt => ?_) ?_
  · refine (he _ (by omega)).bind (by omega) fun value mid₁ hmid₁ => ?_
    refine endsAs_bind_of_reads (reads_pure.2 ⟨rfl, rfl⟩) ?_
    exact endsAs_expectSymbol.bind (by omega) fun _ mid₂ hmid₂ => endsAs_pure (by omega)
  · refine endsAs_bind_of_reads (reads_pure.2 ⟨rfl, rfl⟩) ?_
    exact endsAs_expectSymbol.bind (by omega) fun _ mid₁ hmid₁ => endsAs_pure (by omega)

/-- What starts a `for` loop ends. -/
theorem endsAs_forInit (he : ∀ mid, mid.length ≤ s.length → EndsAs e e' mid mid.length) :
    EndsAs (forInit e) (forInit e') s s.length := by
  refine endsAs_ifSymbol (fun hlt => endsAs_pure hlt) <| endsAs_ifKeyword (fun hlt => ?_) ?_
  · refine (endsAs_variableDeclaration fun mid hmid => he mid (by omega)).bind (by omega) fun init mid hmid => ?_
    exact endsAs_pure (by omega)
  · exact (endsAs_closed (he s (Nat.le_refl _))).bind (Nat.le_refl _) fun init mid hmid => endsAs_pure hmid

/-- Parameters end. -/
theorem endsAs_parameters {others others' : Parser (List String)}
    (hothers : ∀ mid, mid.length < s.length → EndsAs others others' mid (mid.length + 1)) :
    EndsAs (parameters others) (parameters others') s s.length := by
  refine endsAs_ifSymbol (fun hlt => endsAs_pure hlt) ?_
  refine endsAs_expectIdentifier.bind (Nat.le_refl _) fun first mid hmid => ?_
  refine (hothers mid hmid).bind (by omega) fun names mid' hmid' => ?_
  exact endsAs_expectSymbol.bind (by omega) fun _ mid'' hmid'' => endsAs_pure (by omega)

/-! ## Statements -/

/-- Parameters behind others end. -/
theorem endsAs_parametersFrom {count : Nat} (h : EndsBelow call call' (parametersFrom count) s) :
    EndsAs (body call (parametersFrom count)) (body call' (parametersFrom count)) s (s.length + 1) := by
  refine endsAs_ifSymbol (fun hlt => ?_) (endsAs_pure (Nat.lt_succ_self _))
  refine endsAs_bind_reportIf ?_
  refine endsAs_expectIdentifier.bind (by omega) fun name mid hmid => ?_
  refine (h.lax (parametersFrom (count + 1)) (.inl (by omega))).bind (by omega) fun others mid' hmid' => ?_
  exact endsAs_pure (by omega)

/-- Declarations end. -/
theorem endsAs_declaration (h : EndsBelow call call' declaration s) :
    EndsAs (body call declaration) (body call' declaration) s s.length := by
  refine endsAs_ifKeyword (fun hlt => ?_) <| endsAs_ifKeyword (fun hlt => ?_) <| endsAs_ifKeyword (fun hlt => ?_) ?_
  · refine EndsAs.mono (endsAs_variableDeclaration fun mid hmid => ?_) (Nat.le_of_lt hlt)
    exact h.strict (expressionAt .assignment) rfl (.inl (by omega))
  · exact (h.strict function rfl (.inl hlt)).bind (by omega) fun f mid hmid => endsAs_pure (by omega)
  · refine endsAs_expectIdentifier.bind (by omega) fun name mid hmid => ?_
    refine endsAs_parentClass.bind (by omega) fun parent mid₁ hmid₁ => ?_
    refine endsAs_expectSymbol.bind (by omega) fun _ mid₂ hmid₂ => ?_
    exact (h.lax methods (.inl (by omega))).bind (by omega) fun members mid₃ hmid₃ => endsAs_pure (by omega)
  · exact h.strict statement rfl (.inr ⟨rfl, by decide⟩)

/-- Statements end. -/
theorem endsAs_statement (h : EndsBelow call call' statement s) :
    EndsAs (body call statement) (body call' statement) s s.length := by
  have hexpression (mid : TokenStream) (hmid : mid.length < s.length) :
      EndsAs (call (expressionAt .assignment)) (call' (expressionAt .assignment)) mid mid.length :=
    h.strict (expressionAt .assignment) rfl (.inl hmid)
  have hstatement (mid : TokenStream) (hmid : mid.length < s.length) :
      EndsAs (call statement) (call' statement) mid mid.length :=
    h.strict statement rfl (.inl hmid)
  refine endsAs_ifKeyword (fun hlt => ?_) <| endsAs_ifKeyword (fun hlt => ?_) <| endsAs_ifKeyword (fun hlt => ?_) <|
    endsAs_ifKeyword (fun hlt => ?_) <| endsAs_ifKeyword (fun hlt => ?_) <| endsAs_ifKeyword (fun hlt => ?_) <|
    endsAs_ifSymbol (fun hlt => ?_) ?_
  · -- `if`
    refine endsAs_expectSymbol.bind (by omega) fun _ mid hmid => ?_
    refine (hexpression mid (by omega)).bind (by omega) fun test mid₁ hmid₁ => ?_
    refine endsAs_expectSymbol.bind (by omega) fun _ mid₂ hmid₂ => ?_
    refine (hstatement mid₂ (by omega)).bind (by omega) fun branch mid₃ hmid₃ => ?_
    refine endsAs_ifKeyword (fun hlt' => ?_) (endsAs_pure (by omega))
    exact (hstatement _ (by omega)).bind (by omega) fun other mid₄ hmid₄ => endsAs_pure (by omega)
  · -- `while`
    refine endsAs_expectSymbol.bind (by omega) fun _ mid hmid => ?_
    refine (hexpression mid (by omega)).bind (by omega) fun test mid₁ hmid₁ => ?_
    refine endsAs_expectSymbol.bind (by omega) fun _ mid₂ hmid₂ => ?_
    exact (hstatement mid₂ (by omega)).bind (by omega) fun looped mid₃ hmid₃ => endsAs_pure (by omega)
  · -- `for`
    refine endsAs_expectSymbol.bind (by omega) fun _ mid hmid => ?_
    refine (endsAs_forInit fun mid' hmid' => hexpression mid' (by omega)).bind (by omega) fun init mid₁ hmid₁ => ?_
    refine (endsAs_optional (hexpression mid₁ (by omega))).bind (by omega) fun test mid₂ hmid₂ => ?_
    refine (endsAs_optional (hexpression mid₂ (by omega))).bind (by omega) fun increment mid₃ hmid₃ => ?_
    exact (hstatement mid₃ (by omega)).bind (by omega) fun looped mid₄ hmid₄ => endsAs_pure (by omega)
  · exact (endsAs_closed (hexpression _ hlt)).mono (Nat.le_of_lt hlt)
  · exact (endsAs_optional (hexpression _ hlt)).mono (Nat.le_of_lt hlt)
  · exact endsAs_expectSymbol.bind (by omega) fun _ mid hmid => endsAs_pure (by omega)
  · exact (h.strict blockRest rfl (.inl hlt)).bind (by omega) fun block mid hmid => endsAs_pure (by omega)
  · exact endsAs_closed (h.strict (expressionAt .assignment) rfl (.inr ⟨rfl, by decide⟩))

/-- Blocks end. -/
theorem endsAs_blockRest (h : EndsBelow call call' blockRest s) :
    EndsAs (body call blockRest) (body call' blockRest) s s.length := by
  refine endsAs_bind_of_reads (reads_nextIs.2 ⟨rfl, rfl⟩) ?_
  cases s.peek.token?.any fun t => t.isEof || t.isSymbol .rightBrace with
  | true => exact endsAs_expectSymbol.bind (Nat.le_refl _) fun _ mid hmid => endsAs_pure hmid
  | false =>
    refine (h.strict declaration rfl (.inr ⟨rfl, by decide⟩)).bind (Nat.le_refl _) fun first mid hmid => ?_
    exact (h.strict blockRest rfl (.inl hmid)).bind (by omega) fun others mid' hmid' => endsAs_pure (by omega)

/-- Functions end. -/
theorem endsAs_function (h : EndsBelow call call' function s) :
    EndsAs (body call function) (body call' function) s s.length := by
  refine endsAs_expectIdentifier.bind (Nat.le_refl _) fun name mid hmid => ?_
  refine endsAs_expectSymbol.bind (by omega) fun _ mid₁ hmid₁ => ?_
  refine EndsAs.bind (endsAs_parameters fun mid' hmid' => h.lax (parametersFrom 1) (.inl (by omega))) (by omega)
    fun names mid₂ hmid₂ => ?_
  refine endsAs_expectSymbol.bind (by omega) fun _ mid₃ hmid₃ => ?_
  exact (h.strict blockRest rfl (.inl (by omega))).bind (by omega) fun block mid₄ hmid₄ => endsAs_pure (by omega)

/-- Methods end. -/
theorem endsAs_methods (h : EndsBelow call call' methods s) :
    EndsAs (body call methods) (body call' methods) s (s.length + 1) := by
  refine endsAs_ifSymbol (fun hlt => endsAs_pure (by omega)) ?_
  refine endsAs_bind_of_reads (reads_atEof.2 ⟨rfl, rfl⟩) ?_
  cases s.isAtEof with
  | true => exact Ends.alike ⟨by omega, List.cons_ne_nil _ _⟩
  | false =>
    refine (h.strict function rfl (.inr ⟨rfl, by decide⟩)).bind (by omega) fun first mid hmid => ?_
    exact (h.lax methods (.inl hmid)).bind (by omega) fun others mid' hmid' => endsAs_pure (by omega)

/-- A whole program is read to its end. -/
theorem endsAs_program (h : EndsBelow call call' program s) :
    EndsAs (body call program) (body call' program) s (s.length + 1) := by
  refine endsAs_bind_of_reads (reads_atEof.2 ⟨rfl, rfl⟩) ?_
  cases hend : s.isAtEof with
  | true => exact endsAs_pure (Nat.lt_succ_self _)
  | false =>
    have hpos := length_pos_of_not_isAtEof hend
    refine (h.strict declaration rfl (.inr ⟨rfl, by decide⟩)).bind_attempt (fun first mid hmid => ?_) fun mid hmid => ?_
    · exact (h.lax program (.inl hmid)).bind (by omega) fun others mid' hmid' => endsAs_pure (by omega)
    · -- Behind a panic, what is skipped leaves no more than the panic did.
      refine endsAs_skipPastSemicolon.bind (by omega) fun _ mid' hmid' => ?_
      exact (h.lax program (.inl (by omega))).mono (by omega)

/-! ## Enough steps -/

/-- A parser ends if the calls that precede its own do. -/
theorem endsAs_body (r : Reading α) (h : EndsBelow call call' r s) : EndsAs (r.body call) (r.body call') s (r.bound s) := by
  cases r with
  | expressionAt level =>
    cases level with
    | assignment => exact endsAs_assignment h
    | between level => exact endsAs_between h
    | ternary => exact endsAs_ternary h
    | unary => exact endsAs_unary h
    | call => exact endsAs_call h
    | primary => exact endsAs_primary h
  | operationsAfter level left => exact endsAs_operationsAfter h
  | accessesAfter object => exact endsAs_accessesAfter h
  | expressions listing => exact endsAs_expressions h
  | expressionsFrom listing count => exact endsAs_expressionsFrom h
  | parametersFrom count => exact endsAs_parametersFrom h
  | declaration => exact endsAs_declaration h
  | statement => exact endsAs_statement h
  | blockRest => exact endsAs_blockRest h
  | function => exact endsAs_function h
  | methods => exact endsAs_methods h
  | program => exact endsAs_program h

/-- There are fewer than twenty ranks. -/
theorem rank_lt (r : Reading α) : r.rank < 20 := by
  cases r with
  | expressionAt level =>
    cases level with
    | between level => cases level <;> decide
    | _ => decide
  | _ => simp [rank]

/-- With twenty steps for each item, and one more than its rank, a parser ends as the one that needs no steps. -/
theorem endsAs_within (r : Reading α) (hn : 20 * s.length + r.rank < n) : EndsAs (r.within n) r.read s (r.bound s) := by
  induction n generalizing α s with
  | zero => exact absurd hn (Nat.not_lt_zero _)
  | succ n ih =>
    -- A call that precedes has an item less, or a rank less; its steps suffice in either case.
    have hbelow : EndsBelow (fun r' => within n r') (fun r' => below read r s r') r s := by
      intro β r' s' hprecedes
      have hrank := r'.rank_lt
      have hread : EndsAs (r'.within n) r'.read s' (r'.bound s') := by
        refine ih r' ?_
        rcases hprecedes with hlt | ⟨heq, hlt⟩ <;> omega
      exact ⟨hread.ends, hread.same.trans (if_pos hprecedes).symm⟩
    have hbody := endsAs_body r hbelow
    refine ⟨?_, ?_⟩
    · rw [within_succ]
      exact hbody.ends
    · rw [within_succ, read_eq]
      exact hbody.same

end Reading

namespace Grammar

open Lox.Parser

variable {n : Nat} {s : TokenStream}

/-- Expressions end. -/
theorem ends_expressionAt (level : Level) (hn : 20 * s.length + level.rank < n) :
    Ends (expressionAt n level) s s.length :=
  (Reading.endsAs_within (.expressionAt level) hn).ends

/-- Declarations end. -/
theorem ends_declaration (hn : 20 * s.length + 12 < n) : Ends (declaration n) s s.length :=
  (Reading.endsAs_within .declaration hn).ends

/-- Statements end. -/
theorem ends_statement (hn : 20 * s.length + 11 < n) : Ends (statement n) s s.length :=
  (Reading.endsAs_within .statement hn).ends

/-- Functions end. -/
theorem ends_function (hn : 20 * s.length < n) : Ends (function n) s s.length :=
  (Reading.endsAs_within .function hn).ends

/-- Programs end. -/
theorem ends_program (hn : 20 * s.length + 13 < n) : Ends (program n) s (s.length + 1) :=
  (Reading.endsAs_within .program hn).ends

/-- What starts a `for` loop ends. -/
theorem ends_forInit (hn : 20 * s.length + 10 < n) : Ends (forInit n) s s.length := by
  have hexpression (mid : TokenStream) (hmid : mid.length ≤ s.length) :
      EndsAs (expression n) (expression n) mid mid.length := by
    have hn' : 20 * mid.length + 10 < n := by omega
    exact Ends.alike (ends_expressionAt .assignment hn')
  exact (Reading.endsAs_forInit hexpression).ends

/-- An expression that may be missing ends with the symbol behind it. -/
theorem ends_optional {α : Type} {symbol : Symbol} {fault : Fault} (result : Option Expr → α)
    (hn : 20 * s.length + 10 < n) : Ends (Reading.optional (expression n) symbol fault result) s s.length :=
  (Reading.endsAs_optional (Ends.alike (ends_expressionAt .assignment hn))).ends

/-- Parameters end. -/
theorem ends_parameters (hn : 20 * s.length < n) : Ends (parameters n) s s.length := by
  have hothers (mid : TokenStream) (hmid : mid.length < s.length) :
      EndsAs (parametersFrom n 1) (parametersFrom n 1) mid (mid.length + 1) := by
    have hn' : 20 * mid.length < n := by omega
    exact Ends.alike (Reading.endsAs_within (.parametersFrom 1) hn').ends
  exact (Reading.endsAs_parameters hothers).ends

end Grammar

end Lox
