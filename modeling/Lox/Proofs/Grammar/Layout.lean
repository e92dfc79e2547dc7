import Lox.Proofs.Grammar.Lines

/-!
# Tokens and their layout

Tokens can be written down one after the other, each by a lexeme of it, with blanks and comments between them; only the
first character behind a lexeme has to be a blank. Scanning what is written gives the tokens back, and nothing else
(`scan_render`). A lexeme is the longest piece where it stands, since no lexeme goes on over a blank
(`scanFrom_lexeme`); what stands between two lexemes yields nothing (`scanFrom_layout`). So tokens that are written with
another layout are read as the same program.
-/

namespace Lox

open Lox.Grammar

/-! ## Writing tokens -/

/-- Blanks, and comments that end with their line. -/
inductive IsLayout : List Char → Prop
  | nil : IsLayout []
  | blank {c : Char} {rest : List Char} (hc : c = ' ' ∨ c = '\t' ∨ c = '\r' ∨ c = '\n') (hrest : IsLayout rest) :
      IsLayout (c :: rest)
  | comment {body rest : List Char} (hbody : '\n' ∉ body) (hrest : IsLayout rest) :
      IsLayout ('/' :: '/' :: (body ++ '\n' :: rest))

/-- What stands between two tokens: a blank, and further layout. -/
structure Gap where
  first : Char
  rest : List Char
  first_blank : first = ' ' ∨ first = '\t' ∨ first = '\r' ∨ first = '\n'
  rest_layout : IsLayout rest

/-- The characters of a gap. -/
def Gap.characters (g : Gap) : List Char := g.first :: g.rest

/-- A token as it is written: a lexeme of it. -/
structure Word where
  lexeme : List Char
  token : Token
  isLexeme : Lexeme lexeme token

/-- Words one after the other, with a gap between any two. -/
def render (gaps : Nat → Gap) : List Word → List Char
  | [] => []
  | [w] => w.lexeme
  | w :: next :: others =>
    w.lexeme ++ ((gaps 0).characters ++ render (fun k => gaps (k + 1)) (next :: others))

/-- The text of words. -/
def renderText (gaps : Nat → Gap) (words : List Word) : String := String.ofList (render gaps words)

variable {p : Position} {c : Char} {piece rest : List Char} {t : Token}

/-! ## Layout -/

/-- A blank is a blank. -/
theorem isBlank_of_eq (hc : c = ' ' ∨ c = '\t' ∨ c = '\r' ∨ c = '\n') : isBlank c = true := by
  rcases hc with rfl | rfl | rfl | rfl <;> rfl

/-- Layout yields no item. -/
theorem scanFrom_layout (h : IsLayout piece) (p : Position) (rest : List Char) :
    scanFrom p 0 (piece ++ rest) = scanFrom (p.past piece) 0 rest := by
  induction h generalizing p with
  | nil => rfl
  | @blank c more hc _ ih =>
    rw [List.cons_append, scanFrom, if_pos (isBlank_of_eq hc), ih]
    rfl
  | @comment body more hbody _ ih =>
    -- The comment is passed over up to its newline, and this is a blank.
    have hcomment : commentRest ('/' :: (body ++ '\n' :: (more ++ rest))) = '/' :: body := by
      have hall : ∀ d ∈ body, decide (d ≠ '\n') = true := by
        intro d hd
        exact decide_eq_true (ne_of_mem_of_not_mem hd hbody)
      rw [commentRest, List.takeWhile_cons_of_pos (by decide), takeWhile_append_cons (by decide),
        List.takeWhile_eq_self_iff.2 hall]
    have hpiece : pieceRest '/' ('/' :: (body ++ '\n' :: (more ++ rest))) ++ ('\n' :: (more ++ rest)) =
        '/' :: (body ++ '\n' :: (more ++ rest)) := by
      show commentRest _ ++ _ = _
      rw [hcomment, List.cons_append]
    have htext : '/' :: '/' :: (body ++ '\n' :: more) ++ rest = '/' :: '/' :: (body ++ '\n' :: (more ++ rest)) := by
      simp
    have hpast (q : Position) : q.past ('/' :: '/' :: (body ++ '\n' :: more)) =
        ((q.past ('/' :: '/' :: body)).advance '\n').past more := by
      rw [← List.cons_append, ← List.cons_append, Position.past_append, Position.past_cons]
    have hkind : (isBlank '/' || startsComment '/' ('/' :: (body ++ '\n' :: (more ++ rest)))) = true := rfl
    have hnewline : isBlank '\n' = true := rfl
    rw [htext, scanFrom_cons p '/' hpiece, if_pos hkind, scanFrom, if_pos hnewline, ih, hpast]
    show scanFrom (((p.past ('/' :: commentRest _)).advance '\n').past more) 0 rest = _
    rw [hcomment]

/-! ## Lexemes -/

/-- Nothing but the piece itself is its longest part. -/
theorem IsPiece.pieceRest_eq (h : IsPiece (c :: rest)) : pieceRest c rest = rest := by
  have hlongest : IsLongest (c :: rest) [] := by
    refine ⟨h, fun other _ hpre => ?_⟩
    have hle := hpre.length_le
    rwa [List.append_nil] at hle
  have hrest := hlongest.eq_pieceRest
  rw [List.append_nil] at hrest
  exact hrest.symm

/-- What follows a word: nothing, or a blank first. -/
def Breaks (following : List Char) : Prop :=
  following = [] ∨ ∃ b more, following = b :: more ∧ isBlank b = true

/-- A lexeme with nothing or a blank behind it is the longest piece where it stands. -/
theorem Lexeme.pieceRest_append (h : Lexeme (c :: rest) t) {following : List Char} (hbreaks : Breaks following) :
    pieceRest c (rest ++ following) = rest ∧ (isBlank c || startsComment c (rest ++ following)) = false := by
  have hslice : Slice (c :: rest) (.ok t) := .token h
  have hself : pieceRest c rest = rest := IsPiece.pieceRest_eq (.inr ⟨_, hslice⟩)
  -- The lexeme neither is a blank nor starts a comment.
  have hkind : (isBlank c || startsComment c rest) = false := by
    rw [← Bool.not_eq_true]
    intro hseparates
    have hseparator := separator_pieceRest hseparates
    rw [hself] at hseparator
    exact hseparator.not_slice hslice
  rcases hbreaks with rfl | ⟨b, more, rfl, hb⟩
  · rw [List.append_nil]
    exact ⟨hself, hkind⟩
  · -- A string has its quote within the lexeme.
    have hclosed : c = '"' → '"' ∈ rest := by
      rintro rfl
      obtain ⟨_, _, heq, ⟨s, hs⟩ | ⟨hname, -⟩ | ⟨hdigit, -⟩ | ⟨-, body, -, hrest⟩⟩ := h.starts
      · obtain ⟨rfl, rfl⟩ := List.cons.inj heq
        cases s <;> exact absurd (List.cons.inj hs).1 (by decide)
      · obtain ⟨rfl, rfl⟩ := List.cons.inj heq
        exact nomatch hname
      · obtain ⟨rfl, rfl⟩ := List.cons.inj heq
        exact nomatch hdigit
      · obtain ⟨-, rfl⟩ := List.cons.inj heq
        rw [hrest]
        exact List.mem_append_right _ (List.mem_singleton_self _)
    obtain ⟨hblank, hcomment⟩ := Bool.or_eq_false_iff.1 hkind
    have hlexeme : lexemeRest c rest = rest := by
      rw [pieceRest, hblank, if_neg Bool.false_ne_true, hcomment, if_neg Bool.false_ne_true] at hself
      exact hself
    rw [startsComment_append_blank hb, pieceRest, hblank, startsComment_append_blank hb, hcomment,
      if_neg Bool.false_ne_true, if_neg Bool.false_ne_true, lexemeRest_append_blank hb hclosed]
    exact ⟨hlexeme, rfl⟩

/-- A lexeme with nothing or a blank behind it yields its token. -/
theorem scanFrom_lexeme (h : Lexeme piece t) (p : Position) {following : List Char} (hbreaks : Breaks following) :
    scanFrom p 0 (piece ++ following) = ⟨p, .ok t⟩ :: scanFrom (p.past piece) 0 following := by
  obtain ⟨c, rest, rfl, -⟩ := h.starts
  obtain ⟨hpiece, hkind⟩ := h.pieceRest_append hbreaks
  have hslice : Slice (c :: rest) (.ok t) := .token h
  rw [List.cons_append, scanFrom_cons p c (by rw [hpiece]), hkind, if_neg Bool.false_ne_true, hpiece,
    ← hslice.content_eq]

/-! ## Words -/

/-- The words are scanned one after the other. -/
theorem content_scanFrom_render (p : Position) (gaps : Nat → Gap) (words : List Word) :
    (scanFrom p 0 (render gaps words)).map Item.content = words.map fun w => .ok w.token := by
  induction words generalizing p gaps with
  | nil => rfl
  | cons w others ih =>
    cases others with
    | nil =>
      have hone := scanFrom_lexeme w.isLexeme p (.inl rfl)
      rw [List.append_nil] at hone
      show (scanFrom p 0 w.lexeme).map Item.content = _
      rw [hone]
      rfl
    | cons next others =>
      have hbreaks : Breaks ((gaps 0).characters ++ render (fun k => gaps (k + 1)) (next :: others)) :=
        .inr ⟨_, _, rfl, isBlank_of_eq (gaps 0).first_blank⟩
      have hgap : IsLayout (gaps 0).characters := .blank (gaps 0).first_blank (gaps 0).rest_layout
      rw [render, scanFrom_lexeme w.isLexeme p hbreaks, scanFrom_layout hgap, List.map_cons, ih]
      rfl

/-- What declarations derive does not hang on the layout. -/
theorem Grammar.Derives.relayout {gaps : Nat → Gap} {words : List Word} {body : Derivation .declarations}
    (h : Derives (renderText gaps words) body) (gaps' : Nat → Gap) : Derives (renderText gaps' words) body := by
  have hcontent (gaps : Nat → Gap) :
      (scanItems (renderText gaps words)).map Item.content = words.map fun w => .ok w.token := by
    rw [scanItems, renderText, String.toList_ofList]
    exact content_scanFrom_render {} gaps words
  rw [Derives, hcontent] at h ⊢
  exact h

/-- Tokens that are written down and scanned are the same tokens. Whatever the tokens, their lexemes and the gaps between
them, the items are the tokens in order and then the end mark, and none of them is an error. So the layout does not
matter to the program that is read. -/
theorem scan_render (gaps : Nat → Gap) (words : List Word) :
    (scan (renderText gaps words)).map Item.content = words.map (fun w => .ok w.token) ++ [.ok .eof] ∧
      ∀ gaps' p, Program.parse (renderText gaps words) = .ok p ↔ Program.parse (renderText gaps' words) = .ok p := by
  constructor
  · rw [scan_eq, List.map_append, scanItems, renderText, String.toList_ofList, content_scanFrom_render]
    rfl
  · intro gaps' p
    constructor
    · intro h
      obtain ⟨body, hbody, rfl⟩ := exists_derives h
      exact parse_of_derives (hbody.relayout gaps')
    · intro h
      obtain ⟨body, hbody, rfl⟩ := exists_derives h
      exact parse_of_derives (hbody.relayout gaps)

/-- Words with most of which a neighbour could be mistaken: a number with a point, a slash, and a string of slashes. -/
def quotientWords : List Word := [
  ⟨_, _, .keyword .printWord⟩,
  ⟨_, _, @Lexeme.fraction '1' '5' [] [] rfl nofun rfl nofun⟩,
  ⟨_, _, .symbol .slash⟩,
  ⟨_, _, @Lexeme.string ['/', '/'] (by decide)⟩,
  ⟨_, _, .symbol .semicolon⟩]

/-- One blank. -/
def blankGap : Gap := ⟨' ', [], .inl rfl, .nil⟩

/-- Blanks around a comment. -/
def commentGap : Gap :=
  ⟨'\n', "// ;\n\t".toList, .inr (.inr (.inr rfl)),
    @IsLayout.comment [' ', ';'] ['\t'] (by decide) (.blank (.inr (.inl rfl)) .nil)⟩

/-- The number stays next to `print`, the other words stand on lines of their own. -/
def quotientGaps (k : Nat) : Gap :=
  if k = 0 then blankGap else commentGap

/-- The words come back from this layout, and the program is the one that they are on one line. -/
theorem scan_render_quotient :
    renderText (fun _ => blankGap) quotientWords = "print 1.5 / \"//\" ;" ∧
      (scan (renderText quotientGaps quotientWords)).map Item.content =
        [.ok (.keyword .printWord), .ok (.number (Number.ofLiteral ['1', '.', '5'])), .ok (.symbol .slash),
          .ok (.string "//"), .ok (.symbol .semicolon), .ok .eof] ∧
      Program.parse (renderText quotientGaps quotientWords) =
        .ok [.print (.binary (.literal (.number (Number.ofLiteral ['1', '.', '5']))) .divide (.literal (.string "//")))] := by
  obtain ⟨hcontent, hlayout⟩ := scan_render quotientGaps quotientWords
  refine ⟨rfl, hcontent, (hlayout (fun _ => blankGap) _).2 ?_⟩
  exact (Program.parse_eq _).trans rfl

end Lox
