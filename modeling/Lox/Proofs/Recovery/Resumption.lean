import Lox.Proofs.Grammar.Parse
import Lox.Proofs.Recovery.Reading
import Lox.Proofs.Token.Lines

/-!
# Where reading resumes

Behind a statement that cannot be read, reading resumes at the next semicolon. If the statement's own semicolon has not
been consumed by then, that is behind the statement, and everything that is wrong with what follows is reported too. But
whoever finds something else than expected has consumed it, be it the semicolon; then reading resumes behind the next
statement, and nothing is reported of that one (`parse_below_faulty`).
-/

namespace Lox

open Lox.Parser Lox.TokenStream

/-! ## What is reported -/

/-- The reports of a result. -/
def ParsedOn.reports {α : Type} : Parsed α → List Diagnostic
  | ok _ _ reports => reports
  | panic _ reports => reports
  | starved => []

namespace TokenStream

/-- What is wrong with a stream that is read as a program. -/
def faults (s : TokenStream) : List Diagnostic :=
  (program (enoughSteps s.length) s).reports

end TokenStream

variable {n m lines : Nat} {s rest : TokenStream} {reports : List Diagnostic}

/-- There are steps enough to read any stream. -/
theorem program_ne_starved (s : TokenStream) : program (enoughSteps s.length) s ≠ .starved := by
  refine (Grammar.ends_program (s := s) ?_).ne_starved
  unfold enoughSteps
  omega

/-- A text is no program just when something is wrong with it, and this is told. -/
theorem parse_eq_error_iff {text : String} {ds : List Diagnostic} :
    Program.parse text = .error ds ↔ (TokenStream.ofText text).faults = ds ∧ ds ≠ [] := by
  have hsteps : 20 * (ofText text).length + 13 < enoughSteps (ofText text).length := Grammar.lt_enoughSteps text
  have hends := Grammar.ends_program hsteps
  have hlength : (scanItems text).length = (ofText text).length := rfl
  rw [Program.parse_eq, faults, hlength]
  cases hread : program (enoughSteps (ofText text).length) (ofText text) with
  | ok p rest reports =>
    cases reports with
    | nil =>
      constructor
      · exact nofun
      · rintro ⟨rfl, hne⟩
        exact absurd rfl hne
    | cons d reports =>
      constructor
      · intro h
        obtain rfl := Except.error.inj h
        exact ⟨rfl, List.cons_ne_nil _ _⟩
      · rintro ⟨rfl, -⟩
        rfl
  | panic rest reports =>
    constructor
    · intro h
      obtain rfl := Except.error.inj h
      refine ⟨rfl, ?_⟩
      rintro rfl
      exact hends.ne_panic hread
    · rintro ⟨rfl, -⟩
      rfl
  | starved => exact absurd hread hends.ne_starved

/-- Behind a declaration that is read, the others are read. -/
theorem reports_program_of_ok {first : Stmt} (hend : s.isAtEof = false)
    (h : declaration n s = .ok first rest reports) (hrest : program n rest ≠ .starved) :
    (program (n + 1) s).reports = reports ++ (program n rest).reports := by
  rw [program, bind_of_reads (reads_atEof.2 ⟨hend.symm, rfl⟩), if_neg Bool.false_ne_true]
  show (Parser.bind (attempt (declaration n)) _ s).reports = _
  rw [Parser.bind, attempt, h]
  show ((Parser.bind (program n) _ rest).after reports).reports = _
  rw [Parser.bind]
  cases hothers : program n rest with
  | ok others rest' reports' => exact congrArg (reports ++ ·) (List.append_nil reports')
  | panic rest' reports' => rfl
  | starved => exact absurd hothers hrest

/-- Behind a panic, reading resumes at the next semicolon. -/
theorem reports_program_of_panic (hend : s.isAtEof = false) (h : declaration n s = .panic rest reports)
    (hrest : program n rest.behindSemicolon ≠ .starved) :
    (program (n + 1) s).reports = reports ++ (program n rest.behindSemicolon).reports := by
  rw [program, bind_of_reads (reads_atEof.2 ⟨hend.symm, rfl⟩), if_neg Bool.false_ne_true]
  show (Parser.bind (attempt (declaration n)) _ s).reports = _
  rw [Parser.bind, attempt, h]
  show (((program n rest.behindSemicolon).after []).after reports).reports = _
  cases hothers : program n rest.behindSemicolon with
  | ok others rest' reports' => rfl
  | panic rest' reports' => rfl
  | starved => exact absurd hothers hrest

/-! ## Further down -/

/-- The diagnostic so many lines further down. -/
def Diagnostic.down (lines : Nat) (d : Diagnostic) : Diagnostic :=
  { d with position := d.position.down lines }

/-- The stream so many lines further down. -/
def TokenStream.down (lines : Nat) (s : TokenStream) : TokenStream :=
  ⟨s.upcoming.map (Item.down lines), s.ending.down lines⟩

/-- What is next stands further down. -/
theorem TokenStream.peek_down (lines : Nat) (s : TokenStream) : (s.down lines).peek = s.peek.down lines := by
  obtain ⟨upcoming, ending⟩ := s
  cases upcoming <;> rfl

/-- What follows the next item stands further down. -/
theorem TokenStream.advance_down (lines : Nat) (s : TokenStream) : (s.down lines).advance = s.advance.down lines := by
  obtain ⟨upcoming, ending⟩ := s
  cases upcoming <;> rfl

/-- What follows the next semicolon stands further down. -/
theorem TokenStream.behindSemicolon_down (lines : Nat) (s : TokenStream) :
    (s.down lines).behindSemicolon = s.behindSemicolon.down lines := by
  unfold behindSemicolon down
  simp only [List.dropWhile_map, List.map_tail]
  rfl

/-- A stream and the same further down are alike throughout. -/
def Likeness.below (lines : Nat) : Likeness where
  Before s s' := s' = s.down lines
  Behind s s' := s' = s.down lines
  place := Position.down lines
  last _ := False
  content := by
    rintro s _ rfl
    rw [peek_down]
    rfl
  position := by
    rintro s _ rfl
    rw [peek_down]
    rfl
  advance := by
    rintro s _ rfl -
    exact ⟨advance_down lines s, not_false⟩
  semicolon := by
    rintro s _ rfl -
    exact ⟨advance_down lines s, .inl ⟨not_false, advance_down lines s⟩⟩
  several := fun _ _ => ⟨fun _ _ => Iff.rfl, fun _ => not_false⟩
  orElse := .inl

/-- They are. -/
theorem Likeness.isTotal_below (lines : Nat) : (below lines).IsTotal :=
  ⟨fun _ _ => Iff.rfl, fun _ => not_false⟩

/-- Programs further down agree. -/
theorem agree_program_down (lines : Nat) : ∀ {n m : Nat} (s : TokenStream), n ≤ m →
    (Likeness.below lines).Agree (Likeness.below lines).Before (program n s) (program m (s.down lines))
  | 0, _, _, _ => .starved
  | n + 1, 0, _, h => absurd h (Nat.not_succ_le_zero n)
  | n + 1, m + 1, s, h => by
    have hn := Nat.le_of_succ_le_succ h
    rw [program, program]
    refine Likeness.agree_bind_atEof rfl fun ended => ?_
    cases ended with
    | true => exact Likeness.agree_pure rfl
    | false =>
      refine Likeness.agree_bind_attempt (Likeness.isTotal_below lines)
        ((Likeness.alikeStatements hn).declaration rfl) (fun first mid mid' hmid => ?_) fun mid mid' hmid => ?_
      · obtain rfl : mid' = mid.down lines := hmid
        exact Likeness.agree_bind (agree_program_down lines mid hn) fun others _ _ hmid' => Likeness.agree_pure hmid'
      · obtain rfl : mid' = mid.down lines := hmid
        have hskip : (Likeness.below lines).Agree (Likeness.below lines).Before (skipPastSemicolon mid)
            (skipPastSemicolon (mid.down lines)) :=
          .ok (behindSemicolon_down lines mid) Likeness.clear_nil
        refine Likeness.agree_bind hskip fun _ mid₁ mid₁' hmid₁ => ?_
        obtain rfl : mid₁' = mid₁.down lines := hmid₁
        exact agree_program_down lines mid₁ hn

/-- What is wrong with a stream is wrong with it further down, whatever the number of steps, if they suffice. -/
theorem reports_program_down (lines : Nat) (hm : enoughSteps s.length ≤ m) :
    program m (s.down lines) ≠ .starved ∧
      (program m (s.down lines)).reports = s.faults.map (Diagnostic.down lines) := by
  have hagree := agree_program_down lines s hm
  have hstarved := program_ne_starved s
  unfold faults
  generalize program (enoughSteps s.length) s = r at hagree hstarved
  generalize program m (s.down lines) = r' at hagree
  cases hagree with
  | ok _ _ => exact ⟨nofun, rfl⟩
  | panic _ _ => exact ⟨nofun, rfl⟩
  | lost _ hlast =>
    obtain ⟨d, -, hlast⟩ := hlast
    exact hlast.elim
  | starved => exact absurd rfl hstarved

/-! ## A statement and what follows it -/

/-- A statement's items on their own and with others behind them are alike up to the semicolon that ends it. Within the
statement there is no other semicolon, and nothing that is made of several statements. -/
def Likeness.statement (last : Item) (following : TokenStream) (hlast : last.content = .ok .semicolon)
    (helse : ¬following.Starts (.keyword .elseWord)) : Likeness where
  Before s s' := ∃ items, s.upcoming = items ++ [last] ∧ s'.upcoming = items ++ last :: following.upcoming ∧
    s'.ending = following.ending ∧
    ∀ item ∈ items, item.content ≠ .ok .semicolon ∧ item.content ≠ .ok (.symbol .leftBrace) ∧
      item.content ≠ .ok (.keyword .forWord) ∧ item.position ≠ last.position
  Behind s s' := s.upcoming = [] ∧ s' = following
  place := id
  last p := p = last.position
  content := by
    rintro s s' ⟨items, hs, hs', -, -⟩
    cases items <;> simp [peek, hs, hs']
  position := by
    rintro s s' ⟨items, hs, hs', -, -⟩
    cases items <;> simp [peek, hs, hs']
  advance := by
    rintro s s' ⟨items, hs, hs', hending, hitems⟩ hne
    cases items with
    | nil => exact absurd hlast (by simpa [peek, hs] using hne)
    | cons item items =>
      obtain ⟨⟨-, -, -, hposition⟩, hothers⟩ := List.forall_mem_cons.1 hitems
      refine ⟨⟨items, by simp [TokenStream.advance, hs], by simp [TokenStream.advance, hs'], hending, hothers⟩, ?_⟩
      simpa [peek, hs] using hposition
  semicolon := by
    rintro s s' ⟨items, hs, hs', hending, hitems⟩ hsemicolon
    cases items with
    | nil =>
      obtain ⟨upcoming, ending⟩ := s'
      obtain rfl : ending = following.ending := hending
      obtain rfl : upcoming = last :: following.upcoming := hs'
      refine ⟨⟨by simp [TokenStream.advance, hs], rfl⟩, .inr (by simp [peek, hs])⟩
    | cons item items =>
      obtain ⟨⟨hne, -⟩, -⟩ := List.forall_mem_cons.1 hitems
      exact absurd (by simpa [peek, hs] using hsemicolon) hne
  several := by
    rintro s s' ⟨items, hs, hs', hending, hitems⟩ hseveral
    cases items with
    | nil =>
      simp only [peek, hs, List.nil_append, List.head?_cons, Option.getD_some, hlast] at hseveral
      rcases hseveral with h | h <;> exact nomatch h
    | cons item items =>
      obtain ⟨⟨-, hbrace, hfor, -⟩, -⟩ := List.forall_mem_cons.1 hitems
      simp only [peek, hs, List.cons_append, List.head?_cons, Option.getD_some] at hseveral
      rcases hseveral with h | h
      · exact absurd h hbrace
      · exact absurd h hfor
  orElse := by
    rintro s s' ⟨hs, rfl⟩
    refine .inr ⟨?_, helse⟩
    rintro ⟨item, items, hitems, -⟩
    exact nomatch hs.symm.trans hitems

section

variable {last : Item} {following s' : TokenStream} {items more : List Item}

/-- The next semicolon is the first one. -/
theorem TokenStream.behindSemicolon_of_append (hs : s.upcoming = items ++ last :: more)
    (hitems : ∀ item ∈ items, item.content ≠ .ok .semicolon) (hlast : last.content = .ok .semicolon) :
    s.behindSemicolon = { s with upcoming := more } := by
  have hskipped : ∀ item ∈ items, (!item.token?.any (Token.isSymbol .semicolon)) = true := by
    intro item hitem
    rw [Bool.not_eq_true', ← Bool.not_eq_true]
    intro hsemicolon
    obtain ⟨t, ht, hsymbol⟩ := (Option.any_eq_true _ _).1 hsemicolon
    rw [Token.isSymbol_iff.1 hsymbol] at ht
    refine hitems item hitem ?_
    unfold Item.token? at ht
    split at ht
    · rename_i t' ht'
      rw [ht', Option.some.inj ht]
      rfl
    · exact nomatch ht
  have hstop : (!last.token?.any (Token.isSymbol .semicolon)) = false := by
    rw [Item.token?, hlast]
    rfl
  unfold behindSemicolon
  rw [hs, List.dropWhile_append_of_pos hskipped, List.dropWhile_cons_of_neg (by rw [hstop]; exact Bool.false_ne_true)]
  rfl

/-- Nothing is wrong where nothing is left. -/
theorem program_of_upcoming_eq_nil (hs : s.upcoming = []) : program (n + 1) s = .ok [] s [] := by
  have hend : s.isAtEof = true := by
    rw [isAtEof, peek, hs]
    rfl
  rw [program, bind_of_reads (reads_atEof.2 ⟨hend.symm, rfl⟩), if_pos rfl]
  rfl

/-- What is reported of a statement and of what follows it, by what is reported of the statement alone: everything that
is wrong with what follows, or only what is wrong behind its first semicolon. -/
theorem reports_statement_append (hlast : last.content = .ok .semicolon)
    (helse : ¬following.Starts (.keyword .elseWord)) (hs : (Likeness.statement last following hlast helse).Before s s')
    (hend : s.isAtEof = false) (hend' : s'.isAtEof = false) (hn : 20 * s.length + 12 < n) (hm : n ≤ m)
    (hfollowing : program m following ≠ .starved) (hbehind : program m following.behindSemicolon ≠ .starved) :
    ((∀ d ∈ (program (n + 1) s).reports, d.position ≠ last.position) →
      (program (m + 1) s').reports = (program (n + 1) s).reports ++ (program m following).reports) ∧
    ((∃ d ∈ (program (n + 1) s).reports, d.position = last.position) →
      (program (m + 1) s').reports =
        (program (n + 1) s).reports ++ (program m following.behindSemicolon).reports) := by
  have hdeclaration := (Grammar.ends_declaration hn).ne_starved
  have hagree := (Likeness.alikeStatements hm).declaration hs
  have hsame (reports : List Diagnostic) :
      reports.map (Likeness.statement last following hlast helse).move = reports := List.map_id reports
  obtain ⟨n, rfl⟩ := Nat.exists_eq_add_of_lt hn
  generalize hr : declaration _ s = r at hagree hdeclaration
  generalize hr' : declaration m s' = r' at hagree
  cases hagree with
  | @ok first rest rest' reports hrest hclear =>
    obtain ⟨hnil, rfl⟩ := hrest
    have halone := program_of_upcoming_eq_nil (n := 20 * s.length + 12 + n) hnil
    rw [reports_program_of_ok hend hr (by rw [halone]; exact nofun), halone, ParsedOn.reports, List.append_nil,
      reports_program_of_ok hend' hr' hfollowing, hsame]
    refine ⟨fun _ => rfl, ?_⟩
    rintro ⟨d, hd, hlost⟩
    exact absurd hlost (hclear d hd)
  | @panic rest rest' reports hrest hclear =>
    -- Both skip to the semicolon that ends the statement.
    obtain ⟨items, hitems, hitems', hending, hinner⟩ := hrest
    have hskip := behindSemicolon_of_append hitems (fun item hitem => (hinner item hitem).1) hlast
    have hskip' : rest'.behindSemicolon = following := by
      rw [behindSemicolon_of_append hitems' (fun item hitem => (hinner item hitem).1) hlast, hending]
    have halone := program_of_upcoming_eq_nil (n := 20 * s.length + 12 + n) (s := rest.behindSemicolon)
      (by rw [hskip])
    rw [reports_program_of_panic hend hr (by rw [halone]; exact nofun), halone, ParsedOn.reports, List.append_nil,
      reports_program_of_panic hend' hr' (by rw [hskip']; exact hfollowing), hskip', hsame]
    refine ⟨fun _ => rfl, ?_⟩
    rintro ⟨d, hd, hlost⟩
    exact absurd hlost (hclear d hd)
  | @lost rest rest' reports hrest hlost =>
    -- The semicolon is gone, and the next one belongs to what follows.
    obtain ⟨hnil, rfl⟩ := hrest
    have halone := program_of_upcoming_eq_nil (n := 20 * s.length + 12 + n) (s := rest.behindSemicolon)
      (by rw [behindSemicolon, hnil]; rfl)
    rw [reports_program_of_panic hend hr (by rw [halone]; exact nofun), halone, ParsedOn.reports, List.append_nil,
      reports_program_of_panic hend' hr' hbehind, hsame]
    refine ⟨fun hclear => ?_, fun _ => rfl⟩
    obtain ⟨d, hd, hlost⟩ := hlost
    exact absurd hlost (hclear d hd)
  | starved => exact absurd rfl hdeclaration

end

/-! ## Texts -/

/-- What is wrong with a text. -/
def Program.diagnostics (text : String) : List Diagnostic :=
  match Program.parse text with
  | .ok _ => []
  | .error ds => ds

/-- This is what is wrong with its stream. -/
theorem faults_ofText (text : String) : (ofText text).faults = Program.diagnostics text := by
  unfold Program.diagnostics
  cases h : Program.parse text with
  | ok p =>
    by_contra hne
    exact nomatch h.symm.trans (parse_eq_error_iff.2 ⟨rfl, hne⟩)
  | error ds => exact (parse_eq_error_iff.1 h).1

/-- A text of a statement with one semicolon, which is its last item, and with no brace and no `for`. -/
def IsStatement (text : String) (last : Item) : Prop :=
  last.content = .ok .semicolon ∧ ∃ items, scanItems text = items ++ [last] ∧
    ∀ item ∈ items, item.content ≠ .ok .semicolon ∧ item.content ≠ .ok (.symbol .leftBrace) ∧
      item.content ≠ .ok (.symbol .rightBrace) ∧ item.content ≠ .ok (.keyword .forWord)

variable {above below : String} {last : Item} {ds : List Diagnostic}

/-- A text with items is not at its end. -/
theorem isAtEof_ofText {text : String} {items : List Item} (hscan : scanItems text = items) (hne : items ≠ []) :
    (ofText text).isAtEof = false := by
  rw [← Bool.not_eq_true]
  intro hend
  have hnil : scanItems text = [] :=
    upcoming_eq_nil_of_isAtEof hend fun _ hitem => content_ne_eof_of_mem_scanItems hitem
  exact hne (hscan.symm.trans hnil)

/-- A text that does not start with a token does not start with it further down. -/
theorem not_starts_down {text : String} {t : Token} (lines : Nat)
    (h : ∀ item, (scanItems text).head? = some item → item.content ≠ .ok t) : ¬((ofText text).down lines).Starts t := by
  rintro ⟨item, more, hmore, hcontent⟩
  obtain ⟨first, others, hfirst, rfl, -⟩ := List.map_eq_cons_iff.1 hmore
  refine h first ?_ hcontent
  show (ofText text).upcoming.head? = _
  rw [hfirst]
  rfl

/-- Nothing gets longer when what is before the next semicolon is left out. -/
theorem TokenStream.length_behindSemicolon_le (s : TokenStream) : s.behindSemicolon.length ≤ s.length := by
  have hdrop := (List.dropWhile_suffix (fun i : Item => !i.token?.any (Token.isSymbol .semicolon))
    (l := s.upcoming)).length_le
  rw [TokenStream.length, TokenStream.length, behindSemicolon, List.length_tail]
  omega

section

variable {items : List Item} (hscan : scanItems above = items ++ [last]) (hlast : last.content = .ok .semicolon)

include hscan

/-- No other item stands where the last one does. -/
theorem position_ne_last : ∀ item ∈ items, item.position ≠ last.position := by
  have hpairwise : (items ++ [last]).Pairwise fun item later => item.position.Before later.position := by
    rw [← hscan]
    exact pairwise_scanFrom {} 0 above.toList
  intro item hitem
  exact ((List.pairwise_append.1 hpairwise).2.2 item hitem last (List.mem_singleton_self _)).ne

include hlast

/-- Below a text that ends with a semicolon, the items of another one follow its own, further down. -/
theorem upcoming_below (below : String) : (ofText (above ++ "\n" ++ below)).upcoming =
    items ++ last :: ((ofText below).down (linesAbove above)).upcoming := by
  have hclosed : IsClosed (scanItems above) := isClosed_of_scanItems_eq hscan (by rw [hlast]; exact nofun)
  show scanItems _ = _
  rw [scanItems_append_newline below hclosed, hscan, List.append_assoc]
  rfl

/-- The two texts together are as long as both. -/
theorem length_below (below : String) :
    (ofText (above ++ "\n" ++ below)).length = (ofText above).length + (ofText below).length := by
  have habove : (ofText above).upcoming = items ++ [last] := hscan
  rw [TokenStream.length, upcoming_below hscan hlast, TokenStream.length, habove, TokenStream.length, down]
  simp only [List.length_append, List.length_cons, List.length_nil, List.length_map]
  omega

end

/-- Where reading resumes behind a statement that is faulty. If nothing is reported at the semicolon that ends the
statement, what is wrong with the text below is reported too, as it is of that text alone. If something is, the text
below is read from behind its own first semicolon on, and what is wrong before it is not reported. -/
theorem parse_below_faulty (habove : IsStatement above last)
    (hbelow : ∀ item, (scanItems below).head? = some item → item.content ≠ .ok (.keyword .elseWord))
    (hfaulty : Program.parse above = .error ds) :
    ((∀ d ∈ ds, d.position ≠ last.position) →
      Program.parse (above ++ "\n" ++ below) =
        .error (ds ++ (Program.diagnostics below).map (Diagnostic.down (linesAbove above)))) ∧
    ((∃ d ∈ ds, d.position = last.position) →
      Program.parse (above ++ "\n" ++ below) =
        .error (ds ++ (ofText below).behindSemicolon.faults.map (Diagnostic.down (linesAbove above)))) := by
  obtain ⟨hlast, items, hscan, hitems⟩ := habove
  obtain ⟨hfaults, hne⟩ := parse_eq_error_iff.1 hfaulty
  have hjoined := upcoming_below hscan hlast below
  have helse := not_starts_down (linesAbove above) hbelow
  have hbefore : (Likeness.statement last ((ofText below).down (linesAbove above)) hlast helse).Before (ofText above)
      (ofText (above ++ "\n" ++ below)) :=
    ⟨items, hscan, hjoined, endPosition_append_newline above below, fun item hitem =>
      ⟨(hitems item hitem).1, (hitems item hitem).2.1, (hitems item hitem).2.2.2, position_ne_last hscan item hitem⟩⟩
  have hend := isAtEof_ofText hscan (List.append_ne_nil_of_right_ne_nil _ (List.cons_ne_nil _ _))
  have hend' := isAtEof_ofText hjoined (List.append_ne_nil_of_right_ne_nil _ (List.cons_ne_nil _ _))
  -- There are steps enough for each of the texts.
  have hlength := length_below hscan hlast below
  have hsteps (k : Nat) : enoughSteps k = 20 * k + 19 + 1 := by
    unfold enoughSteps
    omega
  have hm {k : Nat} (hk : k ≤ (ofText below).length) :
      enoughSteps k ≤ 20 * (ofText (above ++ "\n" ++ below)).length + 19 := by
    rw [hsteps]
    have hpos : 0 < (ofText above).length := TokenStream.length_pos_of_not_isAtEof hend
    omega
  obtain ⟨hstarved, hreports⟩ := reports_program_down (linesAbove above) (hm (Nat.le_refl _))
  obtain ⟨hstarved', hreports'⟩ := reports_program_down (linesAbove above) (hm (length_behindSemicolon_le _))
  rw [← behindSemicolon_down] at hstarved' hreports'
  have hthen := reports_statement_append hlast helse hbefore hend hend' (n := 20 * (ofText above).length + 19)
    (by omega) (by omega) hstarved hstarved'
  rw [faults, hsteps] at hfaults
  rw [hfaults, hreports, hreports', faults_ofText, ← hsteps] at hthen
  exact ⟨fun hclear => parse_eq_error_iff.2 ⟨hthen.1 hclear, List.append_ne_nil_of_left_ne_nil hne _⟩,
    fun hlost => parse_eq_error_iff.2 ⟨hthen.2 hlost, List.append_ne_nil_of_left_ne_nil hne _⟩⟩

/-- A statement without its expression; what is found instead is the semicolon. -/
def nothingPrinted : String := "print ;"

/-- A statement with something that is no expression. -/
def parenPrinted : String := "print );"

/-- It is a statement that its semicolon ends. -/
theorem isStatement_nothingPrinted : IsStatement nothingPrinted ⟨⟨0, 6⟩, .ok .semicolon⟩ := by
  refine ⟨rfl, [⟨⟨0, 0⟩, .ok (.keyword .printWord)⟩], rfl, fun item hitem => ?_⟩
  obtain rfl := List.mem_singleton.1 hitem
  exact ⟨nofun, nofun, nofun, nofun⟩

/-- The semicolon is no expression. -/
theorem parse_nothingPrinted : Program.parse nothingPrinted = .error [⟨⟨0, 6⟩, .expressionExpected⟩] :=
  (Program.parse_eq _).trans rfl

/-- This is what is wrong with it. -/
theorem diagnostics_nothingPrinted : Program.diagnostics nothingPrinted = [⟨⟨0, 6⟩, .expressionExpected⟩] := by
  rw [Program.diagnostics, parse_nothingPrinted]

/-- It does not start with an `else`. -/
theorem head?_nothingPrinted (item : Item) (h : (scanItems nothingPrinted).head? = some item) :
    item.content ≠ .ok (.keyword .elseWord) := by
  obtain rfl : ⟨⟨0, 0⟩, .ok (.keyword .printWord)⟩ = item := Option.some.inj h
  exact nofun

/-- Behind the one, the next statement is skipped; behind the other, what is wrong with the next one is reported too. -/
theorem parse_below_faulty_print :
    (Program.parse (nothingPrinted ++ "\n" ++ nothingPrinted) = .error [⟨⟨0, 6⟩, .expressionExpected⟩]) ∧
      Program.parse (parenPrinted ++ "\n" ++ nothingPrinted) =
        .error [⟨⟨0, 6⟩, .expressionExpected⟩, ⟨⟨1, 6⟩, .expressionExpected⟩] := by
  have hparen : IsStatement parenPrinted ⟨⟨0, 7⟩, .ok .semicolon⟩ := by
    refine ⟨rfl, [⟨⟨0, 0⟩, .ok (.keyword .printWord)⟩, ⟨⟨0, 6⟩, .ok (.symbol .rightParen)⟩], rfl, fun item hitem => ?_⟩
    simp only [List.mem_cons, List.not_mem_nil, or_false] at hitem
    rcases hitem with rfl | rfl <;> exact ⟨nofun, nofun, nofun, nofun⟩
  have hfaulty : Program.parse parenPrinted = .error [⟨⟨0, 6⟩, .expressionExpected⟩] := (Program.parse_eq _).trans rfl
  have hreported := (parse_below_faulty hparen head?_nothingPrinted hfaulty).1 (by simp)
  rw [diagnostics_nothingPrinted] at hreported
  exact ⟨(parse_below_faulty isStatement_nothingPrinted head?_nothingPrinted parse_nothingPrinted).2
    ⟨_, List.mem_cons_self, rfl⟩, hreported⟩

/-- So what is wrong with the text below is not always reported. -/
theorem not_parse_below_faulty_append :
    ¬∀ (above below : String) (last : Item) (ds : List Diagnostic), IsStatement above last →
      (∀ item, (scanItems below).head? = some item → item.content ≠ .ok (.keyword .elseWord)) →
      Program.parse above = .error ds →
      Program.parse (above ++ "\n" ++ below) =
        .error (ds ++ (Program.diagnostics below).map (Diagnostic.down (linesAbove above))) := by
  intro h
  have hboth := h nothingPrinted nothingPrinted _ _ isStatement_nothingPrinted head?_nothingPrinted parse_nothingPrinted
  rw [diagnostics_nothingPrinted] at hboth
  have hone : Program.parse (nothingPrinted ++ "\n" ++ nothingPrinted) = .error [⟨⟨0, 6⟩, .expressionExpected⟩] :=
    (Program.parse_eq _).trans rfl
  exact nomatch hone.symm.trans hboth

end Lox
