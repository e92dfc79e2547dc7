import Lox.Proofs.Grammar.Adequacy

/-!
# Streams that are read alike

Two streams may be read alike although they are not the same: the one may stand further down than the other, or it may
go on where the other one ends. A `Likeness` says what readers rely on: that the next items are alike, and stay so as
they are consumed, up to the semicolon that ends the statement at which reading started. `Likeness.Agree` says what is
then the same of two results, and for each of the parsers from which all others are made there is a lemma that its
results agree.

The two parsers may be given different numbers of steps. As long as the first has enough, the second has too.
-/

namespace Lox

open Lox.TokenStream Lox.Parser

/-- The token that ends a statement. -/
def Token.semicolon : Token := .symbol .semicolon

/-- What readers rely on in two streams. -/
structure Likeness where
  /-- The streams are alike. -/
  Before : TokenStream → TokenStream → Prop
  /-- The streams behind a statement. -/
  Behind : TokenStream → TokenStream → Prop
  /-- Where in the second stream something stands. -/
  place : Position → Position
  /-- The place in the first stream behind which the streams need not be alike. -/
  last : Position → Prop
  content : ∀ {s s'}, Before s s' → s'.peek.content = s.peek.content
  position : ∀ {s s'}, Before s s' → s'.peek.position = place s.peek.position
  /-- Any token but a semicolon may be consumed. -/
  advance : ∀ {s s'}, Before s s' → s.peek.content ≠ .ok .semicolon →
    Before s.advance s'.advance ∧ ¬last s.peek.position
  /-- A semicolon ends a statement. It is the last token unless the streams are alike behind it too. -/
  semicolon : ∀ {s s'}, Before s s' → s.peek.content = .ok .semicolon →
    Behind s.advance s'.advance ∧ (¬last s.peek.position ∧ Before s.advance s'.advance ∨ last s.peek.position)
  /-- Where several statements make one, the streams are alike behind each of them. -/
  several : ∀ {s s'}, Before s s' →
    s.peek.content = .ok (.symbol .leftBrace) ∨ s.peek.content = .ok (.keyword .forWord) →
      (∀ t t', Before t t' ↔ Behind t t') ∧ ∀ p, ¬last p
  /-- So they are where an `else` follows. -/
  orElse : ∀ {s s'}, Behind s s' →
    Before s s' ∨ ¬s.Starts (.keyword .elseWord) ∧ ¬s'.Starts (.keyword .elseWord)

namespace Likeness

variable {L : Likeness} {α β : Type} {p p' q q' : Parser α} {f f' : α → Parser β} {s s' : TokenStream}
  {After Mid : TokenStream → TokenStream → Prop} {symbol : Symbol} {keyword : Keyword} {fault : Fault}
  {r r' : Parsed α} {reports : List Diagnostic}

/-- The diagnostic for the second stream. -/
def move (L : Likeness) (d : Diagnostic) : Diagnostic :=
  { d with position := L.place d.position }

/-- Whether nothing is reported at the last place. -/
def Clear (L : Likeness) (reports : List Diagnostic) : Prop :=
  ∀ d ∈ reports, ¬L.last d.position

/-- Two results agree: they are the same, but for where the reports stand and for what is left. A panic leaves streams
that are alike, or it has consumed the last token and reported something there. -/
inductive Agree (L : Likeness) (After : TokenStream → TokenStream → Prop) : Parsed α → Parsed α → Prop
  | ok {a : α} {rest rest' : TokenStream} {reports : List Diagnostic} (hrest : After rest rest')
      (hclear : L.Clear reports) : Agree L After (.ok a rest reports) (.ok a rest' (reports.map L.move))
  | panic {rest rest' : TokenStream} {reports : List Diagnostic} (hrest : L.Before rest rest')
      (hclear : L.Clear reports) : Agree L After (.panic rest reports) (.panic rest' (reports.map L.move))
  | lost {rest rest' : TokenStream} {reports : List Diagnostic} (hrest : L.Behind rest rest')
      (hlast : ∃ d ∈ reports, L.last d.position) :
      Agree L After (.panic rest reports) (.panic rest' (reports.map L.move))
  | starved {r : Parsed α} : Agree L After .starved r

/-- The streams are alike behind every statement. -/
def IsTotal (L : Likeness) : Prop :=
  (∀ t t', L.Before t t' ↔ L.Behind t t') ∧ ∀ p, ¬L.last p

/-! ## Reports -/

/-- Nothing is clear. -/
theorem clear_nil : L.Clear [] :=
  nofun

/-- Several reports are clear if the first and the others are. -/
theorem clear_cons {d : Diagnostic} : L.Clear (d :: reports) ↔ ¬L.last d.position ∧ L.Clear reports :=
  List.forall_mem_cons

/-- Reports are clear if the earlier ones and the later ones are. -/
theorem clear_append {earlier later : List Diagnostic} : L.Clear (earlier ++ later) ↔ L.Clear earlier ∧ L.Clear later :=
  List.forall_mem_append

/-- Clear reports before do not matter. -/
theorem Agree.after (h : L.Agree After r r') (hclear : L.Clear reports) :
    L.Agree After (r.after reports) (r'.after (reports.map L.move)) := by
  cases h with
  | ok hrest hreports =>
    rw [ParsedOn.after, ParsedOn.after, ← List.map_append]
    exact .ok hrest (clear_append.2 ⟨hclear, hreports⟩)
  | panic hrest hreports =>
    rw [ParsedOn.after, ParsedOn.after, ← List.map_append]
    exact .panic hrest (clear_append.2 ⟨hclear, hreports⟩)
  | lost hrest hlast =>
    obtain ⟨d, hd, hlast⟩ := hlast
    rw [ParsedOn.after, ParsedOn.after, ← List.map_append]
    exact .lost hrest ⟨d, List.mem_append_right _ hd, hlast⟩
  | starved => exact .starved

/-- One parser and then another agree if both do. -/
theorem agree_bind (hp : L.Agree Mid (p s) (p' s'))
    (hf : ∀ a mid mid', Mid mid mid' → L.Agree After (f a mid) (f' a mid')) :
    L.Agree After ((p >>= f) s) ((p' >>= f') s') := by
  show L.Agree After (Parser.bind p f s) (Parser.bind p' f' s')
  unfold Parser.bind
  cases hps : p s with
  | ok a mid reports =>
    rw [hps] at hp
    generalize p' s' = r' at hp
    cases hp with
    | ok hmid hclear => exact (hf _ _ _ hmid).after hclear
  | panic mid reports =>
    rw [hps] at hp
    generalize p' s' = r' at hp
    cases hp with
    | panic hrest hclear => exact .panic hrest hclear
    | lost hrest hlast => exact .lost hrest hlast
  | starved => exact .starved

/-- What is known already agrees. -/
theorem agree_pure {a : α} (h : After s s') : L.Agree After ((pure a : Parser α) s) ((pure a : Parser α) s') :=
  .ok h clear_nil

/-! ## The next token -/

/-- A token that is next in the one stream is next in the other. -/
theorem starts_iff (h : L.Before s s') {t : Token} (ht : t ≠ .eof) : s'.Starts t ↔ s.Starts t := by
  constructor
  · intro hs
    exact starts_of_content_peek ((L.content h).symm.trans (content_peek_of_starts hs)) ht
  · intro hs
    exact starts_of_content_peek ((L.content h).trans (content_peek_of_starts hs)) ht

/-- A symbol that is next in the one stream is next in the other. -/
theorem starts_symbol_iff (h : L.Before s s') : s'.Starts (.symbol symbol) ↔ s.Starts (.symbol symbol) :=
  starts_iff h nofun

/-- So is a keyword. -/
theorem starts_keyword_iff (h : L.Before s s') : s'.Starts (.keyword keyword) ↔ s.Starts (.keyword keyword) :=
  starts_iff h nofun

/-- A token that is next and no semicolon may be consumed. -/
theorem advance_of_starts (h : L.Before s s') {t : Token} (hs : s.Starts t) (ht : t ≠ .semicolon) :
    L.Before s.advance s'.advance := by
  refine (L.advance h ?_).1
  rw [content_peek_of_starts hs]
  intro hsemicolon
  exact ht (Except.ok.inj hsemicolon)

/-- Both fail at the next item and consume it. -/
theorem agree_fail (h : L.Before s s') :
    L.Agree After ((fail s.peek.position fault : Parser α) s.advance) (fail s'.peek.position fault s'.advance) := by
  rw [L.position h]
  show L.Agree After (.panic s.advance [⟨s.peek.position, fault⟩])
    (.panic s'.advance ([⟨s.peek.position, fault⟩].map L.move))
  by_cases hsemicolon : s.peek.content = .ok .semicolon
  · obtain ⟨hbehind, ⟨hclear, hbefore⟩ | hlast⟩ := L.semicolon h hsemicolon
    · exact .panic hbefore (clear_cons.2 ⟨hclear, clear_nil⟩)
    · exact .lost hbehind ⟨_, List.mem_cons_self, hlast⟩
  · obtain ⟨hbefore, hclear⟩ := L.advance h hsemicolon
    exact .panic hbefore (clear_cons.2 ⟨hclear, clear_nil⟩)

/-- A choice by a symbol agrees if both branches do. -/
theorem agree_ifSymbol (h : L.Before s s') (hsymbol : symbol ≠ .semicolon)
    (hp : s.Starts (.symbol symbol) → L.Before s.advance s'.advance → L.Agree After (p s.advance) (p' s'.advance))
    (hq : L.Agree After (q s) (q' s')) :
    L.Agree After ((do if ← takeSymbol symbol then p else q) s) ((do if ← takeSymbol symbol then p' else q') s') := by
  by_cases hs : s.Starts (.symbol symbol)
  · rw [ifSymbol_of_starts hs, ifSymbol_of_starts ((starts_symbol_iff h).2 hs)]
    exact hp hs (advance_of_starts h hs fun heq => hsymbol (Token.symbol.inj heq))
  · rw [ifSymbol_of_not_starts hs, ifSymbol_of_not_starts (mt (starts_symbol_iff h).1 hs)]
    exact hq

/-- A choice by a semicolon agrees if both branches do, the first one behind the semicolon. -/
theorem agree_ifSemicolon (h : L.Before s s')
    (hp : L.Behind s.advance s'.advance → L.Agree After (p s.advance) (p' s'.advance))
    (hq : L.Agree After (q s) (q' s')) :
    L.Agree After ((do if ← takeSymbol .semicolon then p else q) s)
      ((do if ← takeSymbol .semicolon then p' else q') s') := by
  by_cases hs : s.Starts (.symbol .semicolon)
  · rw [ifSymbol_of_starts hs, ifSymbol_of_starts ((starts_symbol_iff h).2 hs)]
    exact hp (L.semicolon h (content_peek_of_starts hs)).1
  · rw [ifSymbol_of_not_starts hs, ifSymbol_of_not_starts (mt (starts_symbol_iff h).1 hs)]
    exact hq

/-- A choice by a keyword goes on with the first branch where the keyword is next. -/
theorem ifKeyword_of_starts (hs : s.Starts (.keyword keyword)) :
    (do if ← takeKeyword keyword then p else q) s = p s.advance := by
  rw [bind_of_reads (takeKeyword_of_starts hs), if_pos rfl]

/-- A choice by a keyword goes on with the second branch where the keyword is not next. -/
theorem ifKeyword_of_not_starts (hs : ¬s.Starts (.keyword keyword)) :
    (do if ← takeKeyword keyword then p else q) s = q s := by
  rw [bind_of_reads (takeKeyword_of_not_starts hs), if_neg Bool.false_ne_true]

/-- A choice by a keyword agrees if both branches do. -/
theorem agree_ifKeyword (h : L.Before s s')
    (hp : s.Starts (.keyword keyword) → L.Before s.advance s'.advance → L.Agree After (p s.advance) (p' s'.advance))
    (hq : L.Agree After (q s) (q' s')) :
    L.Agree After ((do if ← takeKeyword keyword then p else q) s)
      ((do if ← takeKeyword keyword then p' else q') s') := by
  by_cases hs : s.Starts (.keyword keyword)
  · rw [ifKeyword_of_starts hs, ifKeyword_of_starts ((starts_keyword_iff h).2 hs)]
    exact hp hs (advance_of_starts h hs nofun)
  · rw [ifKeyword_of_not_starts hs, ifKeyword_of_not_starts (mt (starts_keyword_iff h).1 hs)]
    exact hq

/-- What follows a symbol, or its absence, agrees if it does in either case. -/
theorem agree_bind_takeSymbol? {f f' : Option Position → Parser β} (h : L.Before s s') (hsymbol : symbol ≠ .semicolon)
    (hsome : s.Starts (.symbol symbol) → L.Before s.advance s'.advance →
      L.Agree After (f (some s.peek.position) s.advance) (f' (some (L.place s.peek.position)) s'.advance))
    (hnone : L.Agree After (f none s) (f' none s')) :
    L.Agree After ((takeSymbol? symbol >>= f) s) ((takeSymbol? symbol >>= f') s') := by
  by_cases hs : s.Starts (.symbol symbol)
  · rw [bind_of_reads (takeSymbol?_of_starts hs), bind_of_reads (takeSymbol?_of_starts ((starts_symbol_iff h).2 hs)),
      L.position h]
    exact hsome hs (advance_of_starts h hs fun heq => hsymbol (Token.symbol.inj heq))
  · rw [bind_of_reads (takeSymbol?_of_not_starts hs),
      bind_of_reads (takeSymbol?_of_not_starts (mt (starts_symbol_iff h).1 hs))]
    exact hnone

/-- What follows something taken, or its absence, agrees if it does in either case. -/
theorem agree_bind_takeSome {g : Token → Option α} {f f' : Option α → Parser β} (h : L.Before s s')
    (heof : g .eof = none) (hsemicolon : g .semicolon = none)
    (hsome : ∀ a, L.Before s.advance s'.advance → L.Agree After (f (some a) s.advance) (f' (some a) s'.advance))
    (hnone : L.Agree After (f none s) (f' none s')) :
    L.Agree After ((takeSome g >>= f) s) ((takeSome g >>= f') s') := by
  by_cases hs : ∃ t, s.Starts t ∧ (g t).isSome
  · obtain ⟨t, ht, hgt⟩ := hs
    obtain ⟨a, ha⟩ := Option.isSome_iff_exists.1 hgt
    have hne {t' : Token} (hg : g t' = none) : t ≠ t' := by
      rintro rfl
      exact nomatch ha.symm.trans hg
    rw [bind_of_reads (takeSome_of_starts ht ha),
      bind_of_reads (takeSome_of_starts ((starts_iff h (hne heof)).2 ht) ha)]
    exact hsome a (advance_of_starts h ht (hne hsemicolon))
  · have hall : ∀ t, s.Starts t → g t = none := fun t ht =>
      Option.not_isSome_iff_eq_none.1 fun hgt => hs ⟨t, ht, hgt⟩
    have hall' : ∀ t, s'.Starts t → g t = none := by
      intro t ht
      by_cases hend : t = .eof
      · rw [hend, heof]
      · exact hall t ((starts_iff h hend).1 ht)
    rw [bind_of_reads (takeSome_of_not_starts heof hall), bind_of_reads (takeSome_of_not_starts heof hall')]
    exact hnone

/-- Where a symbol is expected, the results agree; behind it the streams are alike or the statement has ended. -/
theorem agree_expect (h : L.Before s s')
    (hafter : s.peek.content = .ok (.symbol symbol) → After s.advance s'.advance) :
    L.Agree After (expectSymbol symbol fault s) (expectSymbol symbol fault s') := by
  rw [expectSymbol, bind_of_reads (reads_next.2 ⟨rfl, rfl⟩), bind_of_reads (reads_next.2 ⟨rfl, rfl⟩), L.content h]
  cases hpeek : s.peek.content with
  | error e => exact agree_fail h
  | ok t =>
    dsimp only
    split
    · rename_i hsymbol
      rw [Token.isSymbol_iff.1 hsymbol] at hpeek
      exact agree_pure (hafter hpeek)
    · exact agree_fail h

/-- Where a symbol other than the semicolon is expected, the streams are alike behind it. -/
theorem agree_expectSymbol (h : L.Before s s') (hsymbol : symbol ≠ .semicolon) :
    L.Agree L.Before (expectSymbol symbol fault s) (expectSymbol symbol fault s') := by
  refine agree_expect h fun hpeek => (L.advance h ?_).1
  rw [hpeek]
  intro hsemicolon
  exact hsymbol (Token.symbol.inj (Except.ok.inj hsemicolon))

/-- Where a semicolon is expected, the statement has ended behind it. -/
theorem agree_expectSemicolon (h : L.Before s s') :
    L.Agree L.Behind (expectSymbol .semicolon fault s) (expectSymbol .semicolon fault s') :=
  agree_expect h fun hpeek => (L.semicolon h hpeek).1

/-- Where a name is expected, the results agree. -/
theorem agree_expectIdentifier (h : L.Before s s') :
    L.Agree L.Before (expectIdentifier s) (expectIdentifier s') := by
  rw [expectIdentifier, bind_of_reads (reads_next.2 ⟨rfl, rfl⟩), bind_of_reads (reads_next.2 ⟨rfl, rfl⟩), L.content h]
  cases hpeek : s.peek.content with
  | error e => exact agree_fail h
  | ok t =>
    cases t with
    | identifier name =>
      refine agree_pure (L.advance h ?_).1
      rw [hpeek]
      exact nofun
    | _ => exact agree_fail h

/-- Where a brace is expected, the streams are alike behind it, and behind every statement. -/
theorem agree_bind_expectBrace {f f' : Unit → Parser β} (h : L.Before s s')
    (hf : ∀ mid mid', L.Before mid mid' → L.IsTotal → L.Agree After (f () mid) (f' () mid')) :
    L.Agree After ((expectSymbol .leftBrace fault >>= f) s) ((expectSymbol .leftBrace fault >>= f') s') := by
  have hbrace : L.Agree (fun t t' => L.Before t t' ∧ L.IsTotal) (expectSymbol .leftBrace fault s)
      (expectSymbol .leftBrace fault s') := by
    refine agree_expect h fun hpeek => ⟨(L.advance h ?_).1, L.several h (.inl hpeek)⟩
    rw [hpeek]
    exact nofun
  exact agree_bind hbrace fun _ mid mid' hmid => hf mid mid' hmid.1 hmid.2

/-- Behind a statement, a choice by `else` agrees if both branches do. -/
theorem agree_ifElse (h : L.Behind s s')
    (hp : L.Before s.advance s'.advance → L.Agree After (p s.advance) (p' s'.advance))
    (hq : L.Agree After (q s) (q' s')) :
    L.Agree After ((do if ← takeKeyword .elseWord then p else q) s)
      ((do if ← takeKeyword .elseWord then p' else q') s') := by
  rcases L.orElse h with hbefore | ⟨hs, hs'⟩
  · exact agree_ifKeyword hbefore (fun _ hmid => hp hmid) hq
  · rw [ifKeyword_of_not_starts hs, ifKeyword_of_not_starts hs']
    exact hq

/-- What follows a look at the next token agrees. -/
theorem agree_bind_nextIs {g : Token → Bool} {f f' : Bool → Parser β} (h : L.Before s s')
    (hf : ∀ found, L.Agree After (f found s) (f' found s')) :
    L.Agree After ((nextIs g >>= f) s) ((nextIs g >>= f') s') := by
  have hnext : s'.peek.token? = s.peek.token? := by
    rw [Item.token?, Item.token?, L.content h]
  rw [bind_of_reads (reads_nextIs.2 ⟨rfl, rfl⟩), bind_of_reads (reads_nextIs.2 ⟨rfl, rfl⟩), hnext]
  exact hf _

/-- What follows a look for the end agrees. -/
theorem agree_bind_atEof {f f' : Bool → Parser β} (h : L.Before s s')
    (hf : ∀ found, L.Agree After (f found s) (f' found s')) :
    L.Agree After ((atEof >>= f) s) ((atEof >>= f') s') :=
  agree_bind_nextIs h hf

/-- A report at a place that is not the last agrees. -/
theorem agree_report {position : Position} (h : After s s') (hclear : ¬L.last position) :
    L.Agree After (report position fault s) (report (L.place position) fault s') := by
  show L.Agree After (.ok () s [⟨position, fault⟩]) (.ok () s' ([⟨position, fault⟩].map L.move))
  exact .ok h (clear_cons.2 ⟨hclear, clear_nil⟩)

/-- A panic behind a report, with something tried in between, agrees if what is tried does. -/
theorem agree_report_attempt_panic {position : Position} (hclear : ¬L.last position)
    (hp : L.Agree L.Before (p s) (p' s')) :
    L.Agree After
      ((do
        report position fault
        let _ ← attempt p
        panic : Parser β) s)
      ((do
        report (L.place position) fault
        let _ ← attempt p'
        panic : Parser β) s') := by
  show L.Agree After (Parser.bind _ _ s) (Parser.bind _ _ s')
  have hclear : ¬L.last (Diagnostic.mk position fault).position := hclear
  generalize hps : p s = r, hps' : p' s' = r' at hp
  simp only [bind, Parser.bind, report, attempt, hps, hps']
  cases hp with
  | ok hrest hreports =>
    simp only [Parser.panic, ParsedOn.after, List.append_nil]
    exact .panic hrest (clear_cons.2 ⟨hclear, hreports⟩)
  | panic hrest hreports =>
    simp only [Parser.panic, ParsedOn.after, List.append_nil]
    exact .panic hrest (clear_cons.2 ⟨hclear, hreports⟩)
  | lost hrest hlast =>
    obtain ⟨d, hd, hlast⟩ := hlast
    simp only [Parser.panic, ParsedOn.after, List.append_nil]
    exact .lost hrest ⟨d, List.mem_cons_of_mem _ hd, hlast⟩
  | starved => exact .starved

/-- What follows an attempt agrees if it does after a success and after a panic, where the streams are alike
throughout. -/
theorem agree_bind_attempt {f f' : Option α → Parser β} (htotal : L.IsTotal) (hp : L.Agree Mid (p s) (p' s'))
    (hsome : ∀ a mid mid', Mid mid mid' → L.Agree After (f (some a) mid) (f' (some a) mid'))
    (hnone : ∀ mid mid', L.Before mid mid' → L.Agree After (f none mid) (f' none mid')) :
    L.Agree After ((attempt p >>= f) s) ((attempt p' >>= f') s') := by
  show L.Agree After (Parser.bind _ _ s) (Parser.bind _ _ s')
  generalize hps : p s = r, hps' : p' s' = r' at hp
  simp only [Parser.bind, attempt, hps, hps']
  cases hp with
  | ok hmid hclear => exact (hsome _ _ _ hmid).after hclear
  | panic hmid hclear => exact (hnone _ _ hmid).after hclear
  | lost _ hlast =>
    obtain ⟨d, -, hlast⟩ := hlast
    exact absurd hlast (htotal.2 _)
  | starved => exact .starved

/-! ## Reports at the next item -/

/-- The parser gives up at the next item, which it reports and consumes. -/
def Balks (p : Parser α) (s : TokenStream) : Prop :=
  p s = .starved ∨ ∃ fault, p s = .panic s.advance [⟨s.peek.position, fault⟩]

/-- What starts with a parser that balks balks. -/
theorem Balks.bind (h : Balks p s) : Balks (p >>= f) s := by
  show Balks (Parser.bind p f) s
  rcases h with h | ⟨fault, h⟩
  · exact .inl (by rw [Parser.bind, h])
  · exact .inr ⟨fault, by rw [Parser.bind, h]⟩

/-- A semicolon is no name. -/
theorem balks_expectIdentifier (h : s.peek.content = .ok .semicolon) : Balks expectIdentifier s := by
  refine .inr ⟨.identifierExpected, ?_⟩
  rw [expectIdentifier, bind_of_reads (reads_next.2 ⟨rfl, rfl⟩), h]
  rfl

/-- A report at the next item agrees with what follows if a semicolon there is not read, but reported too. -/
theorem agree_reportIf {condition : Bool} (h : L.Before s s') (hp : L.Agree After (p s) (p' s'))
    (hbalks : s.peek.content = .ok .semicolon → Balks p s) :
    L.Agree After ((reportIf condition fault >>= fun _ => p) s) ((reportIf condition fault >>= fun _ => p') s') := by
  have hreports : (if condition then [⟨s'.peekPosition, fault⟩] else []) =
      (if condition then [⟨s.peekPosition, fault⟩] else [] : List Diagnostic).map L.move := by
    have hposition : s'.peekPosition = L.place s.peekPosition := L.position h
    rw [hposition]
    cases condition <;> rfl
  rw [reportIf_bind, reportIf_bind, hreports]
  by_cases hsemicolon : s.peek.content = .ok .semicolon
  · rcases hbalks hsemicolon with hs | ⟨fault', hs⟩
    · rw [hs]
      exact .starved
    · rw [hs] at hp ⊢
      generalize p' s' = r' at hp
      cases hp with
      | panic hrest hclear =>
        refine (Agree.panic hrest hclear).after ?_
        obtain ⟨hnext, -⟩ := clear_cons.1 hclear
        cases condition with
        | true => exact clear_cons.2 ⟨hnext, clear_nil⟩
        | false => exact clear_nil
      | lost hrest hlast =>
        obtain ⟨d, hd, hlast⟩ := hlast
        rw [ParsedOn.after, ParsedOn.after, ← List.map_append]
        exact .lost hrest ⟨d, List.mem_append_right _ hd, hlast⟩
  · refine hp.after ?_
    cases condition with
    | true => exact clear_cons.2 ⟨(L.advance h hsemicolon).2, clear_nil⟩
    | false => exact clear_nil

end Likeness

end Lox
