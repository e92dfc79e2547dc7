import Lox.Token.Scanner
import Lox.Proofs.Token.Lexeme

/-!
# The scanner and the pass over a text

The pass moves a position by one character at a time. The scanner moves its place by whole lexemes, and counts each kind
of lexeme in another way. Both come to the same: behind each of its moves the scanner stands where the piece ends that it
has consumed (`Scanner.Passes`), so an item takes the same from what either of them still has to find
(`Scanner.Gives`). What the scanner gives out is what the pass finds, and then the end mark (`scan_eq`).
-/

namespace Lox

/-! ## The pass -/

/-- The characters to be passed over are passed over. -/
theorem scanFrom_length_append (p : Position) (piece rest : List Char) :
    scanFrom p piece.length (piece ++ rest) = scanFrom (p.past piece) 0 rest := by
  induction piece generalizing p with
  | nil => rfl
  | cons c piece ih => exact ih (p.advance c)

/-- Scanning takes the longest piece first. -/
theorem scanFrom_cons (p : Position) (c : Char) {rest following : List Char}
    (hrest : pieceRest c rest ++ following = rest) :
    scanFrom p 0 (c :: rest) =
      if isBlank c || startsComment c rest then scanFrom (p.past (c :: pieceRest c rest)) 0 following
      else ⟨p, Token.ofLexeme (c :: pieceRest c rest)⟩ :: scanFrom (p.past (c :: pieceRest c rest)) 0 following := by
  have hskip := scanFrom_length_append (p.advance c) (pieceRest c rest) following
  rw [hrest] at hskip
  rw [scanFrom, Position.past_cons, ← hskip]
  unfold pieceRest
  cases isBlank c <;> cases startsComment c rest <;> rfl

/-! ## Symbols -/

variable {c : Char} {rest piece : List Char}

/-- A symbol of one character that starts nothing longer. -/
theorem Symbol.of_ofChar? {s : Symbol} (h : ofChar? c = some s) (rest : List Char) :
    s.lexeme = [c] ∧ pieceRest c rest = [] ∧ (isBlank c || startsComment c rest) = false := by
  unfold ofChar? at h
  split at h
  case h_15 => exact nomatch h
  all_goals
    cases h
    exact ⟨rfl, rfl, rfl⟩

/-- A symbol that an equals sign makes longer. -/
theorem Symbol.of_extensible? {plain extended : Symbol} (h : extensible? c = some (plain, extended))
    (rest : List Char) :
    plain.lexeme = [c] ∧ extended.lexeme = [c, '='] ∧
      pieceRest c rest = (if rest.head? = some '=' then ['='] else []) ∧
      (isBlank c || startsComment c rest) = false := by
  unfold extensible? at h
  split at h
  case h_5 => exact nomatch h
  all_goals
    cases h
    exact ⟨rfl, rfl, rfl, rfl⟩

/-- There is no other symbol but the slash. -/
theorem Symbol.ofLexeme?_singleton (hplain : ofChar? c = none) (hextensible : extensible? c = none) (hslash : c ≠ '/') :
    ofLexeme? [c] = none := by
  rw [Option.eq_none_iff_forall_ne_some]
  intro s hs
  have hlexeme := eq_lexeme_of_ofLexeme? hs
  cases s <;> obtain ⟨rfl, -⟩ := List.cons.inj hlexeme <;> contradiction

/-- What is neither a blank nor a comment does not start with a newline. -/
theorem ne_newline (hkind : (isBlank c || startsComment c rest) = false) : c ≠ '\n' := by
  rintro rfl
  exact nomatch hkind

/-- What starts nothing stands alone. -/
theorem pieceRest_eq_nil (hkind : (isBlank c || startsComment c rest) = false) (hextensible : Symbol.extensible? c = none)
    (hdigit : ¬c.isDigit = true) (hquote : c ≠ '"') (hname : ¬startsName c = true) : pieceRest c rest = [] := by
  obtain ⟨hblank, hcomment⟩ := Bool.or_eq_false_iff.1 hkind
  have hequal : (c = '!' || c = '=' || c = '<' || c = '>') = false := by
    simp only [Bool.or_eq_false_iff, decide_eq_false_iff_not]
    refine ⟨⟨⟨?_, ?_⟩, ?_⟩, ?_⟩
    all_goals
      rintro rfl
      exact nomatch hextensible
  simp [pieceRest, lexemeRest, hblank, hcomment, hequal, hdigit, hquote, hname]

/-! ## Strings -/

/-- A string goes over a character that is no quote. -/
theorem stringRest_cons (hc : c ≠ '"') : stringRest (c :: rest) = c :: stringRest rest := by
  simp [stringRest, hc]

/-- A string that is not closed goes to the end. -/
theorem stringRest_of_notMem (hopen : '"' ∉ rest) : stringRest rest = rest := by
  induction rest with
  | nil => rfl
  | cons c rest ih =>
    obtain ⟨hc, hrest⟩ := not_or.1 (List.mem_cons.not.1 hopen)
    rw [stringRest_cons (Ne.symm hc), ih hrest]

/-! ## Places -/

/-- Within a line, each character is a column. -/
theorem Position.past_of_newline_notMem (p : Position) (hline : '\n' ∉ piece) :
    p.past piece = ⟨p.line, p.column + piece.length⟩ := by
  induction piece generalizing p with
  | nil => rfl
  | cons c piece ih =>
    obtain ⟨hc, hpiece⟩ := not_or.1 (List.mem_cons.not.1 hline)
    rw [past_cons, ih _ hpiece, advance, if_neg (Ne.symm hc), List.length_cons, Nat.add_assoc, Nat.add_comm 1]

/-- Characters of one byte each are as many as their bytes. -/
theorem utf8ByteSize_ofList {cs : List Char} (h : ∀ c ∈ cs, c.utf8Size = 1) :
    (String.ofList cs).utf8ByteSize = cs.length := by
  induction cs with
  | nil => rfl
  | cons c cs ih =>
    obtain ⟨hc, hcs⟩ := List.forall_mem_cons.1 h
    rw [String.ofList_cons, String.utf8ByteSize_append, String.utf8ByteSize_singleton, hc, ih hcs, Nat.add_comm,
      List.length_cons]

/-- A digit is one byte. -/
theorem utf8Size_of_isDigit (hc : c.isDigit = true) : c.utf8Size = 1 := by
  rw [Char.utf8Size_eq_one_iff, UInt32.le_iff_toNat_le]
  exact (toNat_of_isDigit hc).2.trans (by decide)

/-- The characters of a number are digits and points. -/
theorem isDigit_or_eq_of_mem_numberRest {d : Char} (hd : d ∈ numberRest rest) : d.isDigit = true ∨ d = '.' := by
  rcases isNumberRest_numberRest rest with hdigits | ⟨digits, decimals, e, heq, hdigits, he, hdecimals⟩
  · exact .inl (hdigits d hd)
  · rw [heq, List.mem_append, List.mem_cons, List.mem_cons] at hd
    rcases hd with hd | rfl | rfl | hd
    · exact .inl (hdigits d hd)
    · exact .inr rfl
    · exact .inl he
    · exact .inl (hdecimals d hd)

namespace Scanner

/-! ## Moves -/

variable {s s' s'' : Scanner} {piece' : List Char}

/-- A scanner has consumed a piece, and still has its place before it. -/
structure Takes (s : Scanner) (piece : List Char) (s' : Scanner) : Prop where
  rest : s.rest = piece ++ s'.rest
  position : s'.position = s.position
  ended : s'.ended = s.ended

/-- A scanner has consumed a piece, and has its place behind it. -/
structure Passes (s : Scanner) (piece : List Char) (s' : Scanner) : Prop where
  rest : s.rest = piece ++ s'.rest
  position : s'.position = s.position.past piece
  ended : s'.ended = s.ended

theorem Takes.trans (h : s.Takes piece s') (h' : s'.Takes piece' s'') : s.Takes (piece ++ piece') s'' where
  rest := by rw [h.rest, h'.rest, List.append_assoc]
  position := h'.position.trans h.position
  ended := h'.ended.trans h.ended

theorem Passes.trans (h : s.Passes piece s') (h' : s'.Passes piece' s'') : s.Passes (piece ++ piece') s'' where
  rest := by rw [h.rest, h'.rest, List.append_assoc]
  position := by rw [h'.position, h.position, Position.past_append]
  ended := h'.ended.trans h.ended

theorem takes_first (hrest : s.rest = c :: rest) : s.Takes [c] { s with rest } :=
  ⟨hrest, rfl, rfl⟩

theorem takes_takeIf? (h : s.takeIf? c = some s') : s.Takes [c] s' := by
  unfold takeIf? at h
  split at h
  · rename_i d rest hrest
    split_ifs at h with hd
    cases h
    exact hd ▸ takes_first hrest
  · exact nomatch h

theorem head?_ne_of_takeIf? (h : s.takeIf? c = none) : s.rest.head? ≠ some c := by
  unfold takeIf? at h
  split at h
  · rename_i d rest hrest
    rw [hrest]
    rintro hfirst
    obtain rfl := Option.some.inj hfirst
    exact nomatch h.symm.trans (if_pos rfl)
  · rename_i hrest
    rw [hrest]
    exact nofun

theorem takes_takeWhile (s : Scanner) (p : Char → Bool) : s.Takes (s.takeWhile p).1 (s.takeWhile p).2 :=
  ⟨List.takeWhile_append_dropWhile.symm, rfl, rfl⟩

theorem takes_takeFraction (s : Scanner) : s.Takes s.takeFraction.1 s.takeFraction.2 := by
  unfold takeFraction
  split
  · rename_i d more hrest
    split_ifs
    · exact (takes_first hrest).trans (takes_takeWhile { s with rest := d :: more } Char.isDigit)
    · exact ⟨rfl, rfl, rfl⟩
  · exact ⟨rfl, rfl, rfl⟩

/-- A piece within a line moves the place by its characters. -/
theorem Takes.right (h : s.Takes piece s') (hline : '\n' ∉ piece) {columns : Nat} (hcolumns : columns = piece.length) :
    s.Passes piece (s'.right columns) where
  rest := h.rest
  position := by rw [Position.past_of_newline_notMem _ hline, ← hcolumns, ← h.position]; rfl
  ended := h.ended

theorem passes_first (hrest : s.rest = c :: rest) (hc : c ≠ '\n') : s.Passes [c] ({ s with rest }.right 1) :=
  (takes_first hrest).right (by simpa using Ne.symm hc) rfl

/-- A newline moves the place to the next line. -/
theorem passes_down (hrest : s.rest = '\n' :: rest) : s.Passes ['\n'] { s with rest }.down :=
  ⟨hrest, rfl, rfl⟩

/-! ## Lexemes -/

/-- A number goes on as far as the scanner goes on with it. -/
theorem numberRest_eq (s : Scanner) :
    numberRest s.rest = (s.takeWhile Char.isDigit).1 ++ (s.takeWhile Char.isDigit).2.takeFraction.1 := by
  unfold numberRest takeFraction takeWhile
  dsimp only
  generalize s.rest.dropWhile Char.isDigit = following
  split
  · split_ifs with hd <;> simp [hd]
  · simp

/-- A number is consumed as far as its digits go, each of one byte. -/
theorem passes_number (hrest : s.rest = c :: rest) (hc : c.isDigit = true) (start : Position) :
    ∃ s', { s with rest }.number c start = (⟨start, Token.ofLexeme (c :: pieceRest c rest)⟩, s') ∧
      s.Passes (c :: pieceRest c rest) s' := by
  rw [pieceRest_of_isDigit hc, ofLexeme_of_isDigit hc]
  have htakes := (takes_takeWhile { s with rest } Char.isDigit).trans (takes_takeFraction _)
  rw [← numberRest_eq] at htakes
  have hone : ∀ d ∈ c :: numberRest rest, d.isDigit = true ∨ d = '.' :=
    List.forall_mem_cons.2 ⟨.inl hc, fun d hd => isDigit_or_eq_of_mem_numberRest hd⟩
  have hsize : (String.ofList (c :: numberRest rest)).utf8ByteSize = (c :: numberRest rest).length := by
    refine utf8ByteSize_ofList fun d hd => ?_
    rcases hone d hd with hdigit | rfl
    · exact utf8Size_of_isDigit hdigit
    · rfl
  have hline : '\n' ∉ c :: numberRest rest := fun hmem => absurd (hone _ hmem) (by decide)
  refine ⟨_, ?_, ((takes_first hrest).trans htakes).right hline hsize⟩
  unfold number
  rw [numberRest_eq { s with rest }]

/-- A name is consumed as far as its characters go. -/
theorem passes_name (hrest : s.rest = c :: rest) (hc : startsName c = true) (start : Position) :
    ∃ s', { s with rest }.name c start = (⟨start, Token.ofLexeme (c :: pieceRest c rest)⟩, s') ∧
      s.Passes (c :: pieceRest c rest) s' := by
  rw [pieceRest_of_startsName hc]
  have htakes := (takes_first hrest).trans (takes_takeWhile { s with rest } continuesName)
  have hline : '\n' ∉ c :: rest.takeWhile continuesName := by
    rw [List.mem_cons, not_or]
    exact ⟨(ne_of_startsName hc rfl).symm, fun hmem => nomatch List.mem_takeWhile_imp hmem⟩
  refine ⟨_, ?_, htakes.right hline String.length_ofList⟩
  unfold name
  dsimp only [takeWhile]
  cases hword : Keyword.ofWord? (String.ofList (c :: rest.takeWhile continuesName)) with
  | none =>
    rw [ofLexeme_of_startsName hc hword]
    rfl
  | some k =>
    have hcontent := (Slice.token (Lexeme.keyword k)).content_eq
    rw [← Keyword.eq_word_of_ofWord? hword, String.toList_ofList] at hcontent
    rw [← hcontent]
    rfl

/-- A string is consumed to its end, and the place moves over the lines of it. -/
theorem passes_throughQuoteFrom (s : Scanner) (cs : List Char) :
    { s with rest := cs }.Passes (stringRest cs) (s.throughQuoteFrom cs).2 := by
  induction cs generalizing s with
  | nil => exact ⟨rfl, rfl, rfl⟩
  | cons c rest ih =>
    unfold throughQuoteFrom
    by_cases hquote : c = '"'
    · subst hquote
      exact ⟨rfl, rfl, rfl⟩
    · rw [stringRest_cons hquote, if_neg hquote]
      by_cases hline : c = '\n'
      · subst hline
        exact (passes_down rfl).trans (ih s.down)
      · have hfirst : { s with rest := c :: rest }.Passes [c] ({ s with rest }.right 1) := passes_first rfl hline
        rw [if_neg hline]
        exact hfirst.trans (ih (s.right 1))

/-- What is given out of a string is its content. -/
theorem throughQuoteFrom_of_mem {cs : List Char} (h : '"' ∈ cs) :
    ∃ content, '"' ∉ content ∧ stringRest cs = content ++ ['"'] ∧
      ∀ s : Scanner, (s.throughQuoteFrom cs).1 = some content := by
  induction cs with
  | nil => exact absurd h List.not_mem_nil
  | cons c rest ih =>
    by_cases hquote : c = '"'
    · subst hquote
      exact ⟨[], List.not_mem_nil, rfl, fun _ => rfl⟩
    · obtain ⟨content, hcontent, hrest, hgiven⟩ := ih ((List.mem_cons.1 h).resolve_left (Ne.symm hquote))
      refine ⟨c :: content, ?_, ?_, fun s => ?_⟩
      · exact fun hmem => (List.mem_cons.1 hmem).elim (Ne.symm hquote) hcontent
      · rw [stringRest_cons hquote, hrest, List.cons_append]
      · unfold throughQuoteFrom
        rw [if_neg hquote]
        exact congrArg (Option.map (c :: ·)) (hgiven _)

/-- Nothing is given out of a string that is not closed. -/
theorem throughQuoteFrom_of_notMem (s : Scanner) {cs : List Char} (h : '"' ∉ cs) : (s.throughQuoteFrom cs).1 = none := by
  induction cs generalizing s with
  | nil => rfl
  | cons c rest ih =>
    obtain ⟨hquote, hrest⟩ := not_or.1 (List.mem_cons.not.1 h)
    unfold throughQuoteFrom
    rw [if_neg (Ne.symm hquote)]
    exact congrArg (Option.map (c :: ·)) (ih _ hrest)

theorem passes_string (hrest : s.rest = '"' :: rest) (start : Position) :
    ∃ s', { s with rest }.string start = (⟨start, Token.ofLexeme ('"' :: pieceRest '"' rest)⟩, s') ∧
      s.Passes ('"' :: pieceRest '"' rest) s' := by
  rw [pieceRest_quote]
  have hquote : s.Passes ['"'] ({ s with rest }.right 1) := passes_first hrest (by decide)
  have hbody := passes_throughQuoteFrom ({ s with rest }.right 1) rest
  refine ⟨_, ?_, hquote.trans hbody⟩
  unfold string
  dsimp only
  by_cases hclosed : '"' ∈ rest
  · obtain ⟨content, hcontent, heq, hgiven⟩ := throughQuoteFrom_of_mem hclosed
    rw [heq, ← (Slice.token (.string hcontent)).content_eq, hgiven]
  · rw [stringRest_of_notMem hclosed, ← (Slice.unterminated hclosed).content_eq, throughQuoteFrom_of_notMem _ hclosed]

/-- A comment is consumed to the end of its line. -/
theorem passes_skipComment (hrest : s.rest = '/' :: rest) (hsecond : { s with rest }.takeIf? '/' = some s') :
    s.Passes ('/' :: pieceRest '/' rest) s'.skipComment := by
  have htakes := takes_takeIf? hsecond
  have hpiece : pieceRest '/' rest = ['/'] ++ (s'.takeWhile (· ≠ '\n')).1 :=
    (congrArg (pieceRest '/') htakes.rest).trans pieceRest_comment
  rw [hpiece]
  refine ((takes_first hrest).trans (htakes.trans (takes_takeWhile s' _))).right ?_ ?_
  · have hbody : '\n' ∉ (s'.takeWhile (· ≠ '\n')).1 :=
      fun hmem => absurd (List.mem_takeWhile_imp hmem) (by decide)
    simpa using hbody
  · rw [List.length_append, List.length_append, ← Nat.add_assoc]
    rfl

/-! ## Items -/

/-- A scanner has given out items: they are what comes first of what was to come, and the end mark stays where it is. -/
structure Gives (s : Scanner) (items : List Item) (s' : Scanner) : Prop where
  ahead : scanFrom s.position 0 s.rest = items ++ scanFrom s'.position 0 s'.rest
  endPosition : s'.position.past s'.rest = s.position.past s.rest
  ended : s'.ended = s.ended

theorem Gives.trans {items items' : List Item} (h : s.Gives items s') (h' : s'.Gives items' s'') :
    s.Gives (items ++ items') s'' where
  ahead := by rw [h.ahead, h'.ahead, List.append_assoc]
  endPosition := h'.endPosition.trans h.endPosition
  ended := h'.ended.trans h.ended

/-- What the longest piece at a place gives out: nothing, if it separates, and otherwise its item. -/
theorem Passes.gives (h : s.Passes (c :: pieceRest c rest) s') (hrest : s.rest = c :: rest) :
    s.Gives (if isBlank c || startsComment c rest then [] else [⟨s.position, Token.ofLexeme (c :: pieceRest c rest)⟩])
      s' where
  ahead := by
    have hpiece : pieceRest c rest ++ s'.rest = rest := (List.cons.inj (h.rest.symm.trans hrest)).2
    rw [hrest, scanFrom_cons _ _ hpiece, ← h.position]
    split_ifs <;> rfl
  endPosition := by rw [h.position, h.rest, Position.past_append]
  ended := h.ended

theorem Passes.gives_nil (h : s.Passes (c :: pieceRest c rest) s') (hrest : s.rest = c :: rest)
    (hkind : (isBlank c || startsComment c rest) = true) : s.Gives [] s' := by
  have hgives := h.gives hrest
  rwa [if_pos hkind] at hgives

theorem Passes.gives_item (h : s.Passes (c :: pieceRest c rest) s') (hrest : s.rest = c :: rest)
    (hkind : (isBlank c || startsComment c rest) = false) :
    s.Gives [⟨s.position, Token.ofLexeme (c :: pieceRest c rest)⟩] s' := by
  have hgives := h.gives hrest
  rwa [hkind, if_neg Bool.false_ne_true] at hgives

/-- A blank gives out nothing. -/
theorem Passes.gives_blank (h : s.Passes [c] s') (hrest : s.rest = c :: rest) (hc : isBlank c = true) :
    s.Gives [] s' := by
  have hpiece : pieceRest c rest = [] := if_pos hc
  exact gives_nil (hpiece ▸ h) hrest (by rw [hc, Bool.true_or])

/-- A blank within a line is a column. -/
theorem gives_inlineBlank (hrest : s.rest = c :: rest) (hc : (c = ' ' || c = '\r' || c = '\t') = true) :
    s.Gives [] ({ s with rest }.right 1) := by
  have hline : c ≠ '\n' := by
    rintro rfl
    exact absurd hc (by decide)
  exact (passes_first hrest hline).gives_blank hrest (by rw [isBlank, hc, Bool.true_or])

/-- A line break ends the line. -/
theorem gives_lineBreak (hrest : s.rest = '\n' :: rest) : s.Gives [] { s with rest }.down :=
  (passes_down hrest).gives_blank hrest rfl

/-- Blanks give out nothing. -/
theorem gives_skipBlanksFrom (s : Scanner) (cs : List Char) : { s with rest := cs }.Gives [] (s.skipBlanksFrom cs) := by
  induction cs generalizing s with
  | nil => exact ⟨rfl, rfl, rfl⟩
  | cons c rest ih =>
    unfold skipBlanksFrom
    split_ifs with hblank hline
    · have hfirst : { s with rest := c :: rest }.Gives [] ({ s with rest }.right 1) := gives_inlineBlank rfl hblank
      exact hfirst.trans (ih (s.right 1))
    · subst hline
      have hfirst : { s with rest := '\n' :: rest }.Gives [] { s with rest }.down := gives_lineBreak rfl
      exact hfirst.trans (ih s.down)
    · exact ⟨rfl, rfl, rfl⟩

theorem gives_skipBlanks (s : Scanner) : s.Gives [] s.skipBlanks :=
  s.gives_skipBlanksFrom s.rest

/-- A comment gives out nothing. -/
theorem gives_skipComment (hrest : s.rest = '/' :: rest) (hsecond : { s with rest }.takeIf? '/' = some s') :
    s.Gives [] s'.skipComment := by
  have hcomment : startsComment '/' rest = true := by
    simpa [startsComment] using congrArg List.head? (takes_takeIf? hsecond).rest
  exact (passes_skipComment hrest hsecond).gives_nil hrest hcomment

/-- A symbol of one character gives out its item. -/
theorem gives_symbol (hrest : s.rest = c :: rest) {symbol : Symbol} (hlexeme : symbol.lexeme = [c])
    (hpiece : pieceRest c rest = []) (hkind : (isBlank c || startsComment c rest) = false) :
    s.Gives [⟨s.position, .ok (.symbol symbol)⟩] ({ s with rest }.right 1) := by
  have hpasses : s.Passes (c :: pieceRest c rest) ({ s with rest }.right 1) :=
    hpiece ▸ passes_first hrest (ne_newline hkind)
  have hgives := hpasses.gives_item hrest hkind
  rwa [hpiece, ← hlexeme, ← (Slice.token (.symbol symbol)).content_eq] at hgives

/-- A symbol that an equals sign may make longer gives out its item. -/
theorem gives_extensible (hrest : s.rest = c :: rest) {plain extended : Symbol}
    (h : Symbol.extensible? c = some (plain, extended)) :
    s.Gives [({ s with rest }.extensible plain extended s.position).1]
      ({ s with rest }.extensible plain extended s.position).2 := by
  obtain ⟨hplain, hextended, hpiece, hkind⟩ := Symbol.of_extensible? h rest
  unfold Scanner.extensible
  cases hequal : { s with rest }.takeIf? '=' with
  | some s' =>
    have htakes := takes_takeIf? hequal
    have hboth : pieceRest c rest = ['='] := hpiece.trans (if_pos (congrArg List.head? htakes.rest))
    have hline : '\n' ∉ [c, '='] := by simpa using (ne_newline hkind).symm
    have hpasses : s.Passes (c :: pieceRest c rest) (s'.right 2) :=
      hboth ▸ ((takes_first hrest).trans htakes).right hline rfl
    have hgives := hpasses.gives_item hrest hkind
    rwa [hboth, ← hextended, ← (Slice.token (.symbol extended)).content_eq] at hgives
  | none => exact gives_symbol hrest hplain (hpiece.trans (if_neg (head?_ne_of_takeIf? hequal))) hkind

/-- What is consumed at once gives out at most one item. -/
theorem gives_lexeme (hrest : s.rest = c :: rest) :
    s.Gives ({ s with rest }.lexeme c s.position).1.toList ({ s with rest }.lexeme c s.position).2 := by
  -- The cases are those of the first character, in the order in which it is looked at.
  unfold lexeme
  split
  · rename_i hsymbol
    obtain ⟨hlexeme, hpiece, hkind⟩ := Symbol.of_ofChar? hsymbol rest
    exact gives_symbol hrest hlexeme hpiece hkind
  · rename_i hsymbol
    exact gives_extensible hrest hsymbol
  · rename_i hplain hextensible
    split_ifs with hslash hblank hline hdigit hquote hname
    · subst hslash
      cases hsecond : { s with rest }.takeIf? '/' with
      | some s' => exact gives_skipComment hrest hsecond
      | none =>
        have hcomment : startsComment '/' rest = false := by
          simpa [startsComment] using head?_ne_of_takeIf? hsecond
        have hpiece : pieceRest '/' rest = [] := (if_neg (Bool.eq_false_iff.1 hcomment)).trans rfl
        exact gives_symbol hrest rfl hpiece hcomment
    · exact (gives_inlineBlank hrest hblank).trans ({ s with rest }.right 1).gives_skipBlanks
    · subst hline
      exact (gives_lineBreak hrest).trans { s with rest }.down.gives_skipBlanks
    all_goals have hkind : (isBlank c || startsComment c rest) = false := by simp_all [isBlank, startsComment]
    · obtain ⟨s', heq, hpasses⟩ := passes_number hrest hdigit s.position
      rw [heq]
      exact hpasses.gives_item hrest hkind
    · subst hquote
      obtain ⟨s', heq, hpasses⟩ := passes_string hrest s.position
      rw [heq]
      exact hpasses.gives_item hrest hkind
    · obtain ⟨s', heq, hpasses⟩ := passes_name hrest hname s.position
      rw [heq]
      exact hpasses.gives_item hrest hkind
    · have hpiece := pieceRest_eq_nil hkind hextensible hdigit hquote hname
      have hpasses : s.Passes (c :: pieceRest c rest) ({ s with rest }.right 1) := hpiece ▸ passes_first hrest hline
      have hgives := hpasses.gives_item hrest hkind
      have hcontent : Token.ofLexeme [c] = .error .unrecognizedToken := by
        simp [Token.ofLexeme, Symbol.ofLexeme?_singleton hplain hextensible hslash, hdigit, hquote, hname]
      rwa [hpiece, hcontent] at hgives

/-- The next item is given out as long as there is one; then comes the end mark, if it has not been given out. -/
theorem next_spec (s : Scanner) :
    (∃ item s', s.next = some (item, s') ∧ s.Gives [item] s') ∨
      scanFrom s.position 0 s.rest = [] ∧ s.next = if s.ended then none else
        some (Item.eof (s.position.past s.rest), ⟨[], s.position.past s.rest, true⟩) := by
  fun_induction next s with
  | case1 s hrest hended =>
    rw [hrest, if_pos hended]
    exact .inr ⟨rfl, rfl⟩
  | case2 s hrest hopen =>
    rw [hrest, if_neg hopen]
    exact .inr ⟨rfl, rfl⟩
  | case3 s c rest hrest item s' hlexeme =>
    have hgives := gives_lexeme hrest
    rw [hlexeme] at hgives
    exact .inl ⟨item, s', rfl, hgives⟩
  | case4 s c rest hrest s₁ hlexeme ih =>
    have hgives := gives_lexeme hrest
    rw [hlexeme] at hgives
    rcases ih with ⟨item, s', hnext, hgives'⟩ | ⟨hahead, hnext⟩
    · exact .inl ⟨item, s', hnext, hgives.trans hgives'⟩
    · refine .inr ⟨hgives.ahead.trans hahead, ?_⟩
      rw [hnext, hgives.ended, hgives.endPosition]

/-- Behind the end mark there is nothing. -/
theorem items_of_ended (p : Position) : items ⟨[], p, true⟩ = [] := by
  have hnext : next ⟨[], p, true⟩ = none := by
    unfold next
    rfl
  unfold items
  rw [hnext]

/-- What is given out is all that was to come, and the end mark. -/
theorem items_eq (hopen : s.ended = false) :
    s.items = scanFrom s.position 0 s.rest ++ [Item.eof (s.position.past s.rest)] := by
  fun_induction items s with
  | case1 s item s₁ hnext ih =>
    rcases s.next_spec with ⟨item', s', hnext', hgives⟩ | ⟨hahead, hend⟩
    · obtain ⟨rfl, rfl⟩ := Prod.mk.inj (Option.some.inj (hnext.symm.trans hnext'))
      rw [ih (hgives.ended.trans hopen), hgives.ahead, hgives.endPosition]
      rfl
    · rw [hopen, if_neg Bool.false_ne_true] at hend
      obtain ⟨rfl, rfl⟩ := Prod.mk.inj (Option.some.inj (hnext.symm.trans hend))
      rw [items_of_ended, hahead]
      rfl
  | case2 s hnone =>
    rcases s.next_spec with ⟨item', s', hnext', -⟩ | ⟨-, hend⟩
    · exact nomatch hnone.symm.trans hnext'
    · rw [hopen, if_neg Bool.false_ne_true] at hend
      exact nomatch hnone.symm.trans hend

end Scanner

/-- The scanner gives out what the pass over the text finds, and then the end mark. -/
theorem scan_eq (text : String) : scan text = scanItems text ++ [Item.eof (endPosition text)] :=
  Scanner.items_eq rfl

theorem mem_scan_iff {text : String} {item : Item} :
    item ∈ scan text ↔ item ∈ scanItems text ∨ item = Item.eof (endPosition text) := by
  rw [scan_eq, List.mem_append, List.mem_singleton]

end Lox
