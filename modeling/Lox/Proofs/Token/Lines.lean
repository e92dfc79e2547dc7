import Lox.Proofs.Token.Division
import Lox.Token.Stream

/-!
# A text below another one

No piece goes on over the end of a line, strings apart. So where a text is followed by another one on a new line, and no
string is left open, its items are followed by those of the other one, further down (`scanItems_append_newline`). A
string that is left open is the last item (`getLast?_scanFrom_of_open`), and every item stands before those that follow
it (`pairwise_scanFrom`).
-/

namespace Lox

/-! ## Further down -/

/-- The place so many lines further down. -/
def Position.down (lines : Nat) (p : Position) : Position :=
  { p with line := p.line + lines }

/-- The item so many lines further down. -/
def Item.down (lines : Nat) (item : Item) : Item :=
  { item with position := item.position.down lines }

variable {lines : Nat} {p : Position} {c : Char} {rest following : List Char}

/-- A character moves a position further down as it does above. -/
theorem Position.advance_down (lines : Nat) (p : Position) (c : Char) :
    (p.down lines).advance c = (p.advance c).down lines := by
  unfold advance down
  split
  · simp only [Nat.add_right_comm]
  · rfl

/-- A text that starts further down yields the same items further down. -/
theorem scanFrom_down (lines : Nat) (p : Position) (skip : Nat) (cs : List Char) :
    scanFrom (p.down lines) skip cs = (scanFrom p skip cs).map (Item.down lines) := by
  induction cs generalizing p skip with
  | nil => cases skip <;> rfl
  | cons c rest ih =>
    cases skip with
    | succ skip => rw [scanFrom, scanFrom, Position.advance_down, ih]
    | zero =>
      rw [scanFrom, scanFrom, Position.advance_down]
      split_ifs
      · exact ih _ _
      · exact ih _ _
      · dsimp only
        rw [List.map_cons, ih]
        rfl

/-- So does a piece of text. -/
theorem Position.past_down (lines : Nat) (p : Position) (cs : List Char) :
    (p.down lines).past cs = (p.past cs).down lines := by
  induction cs generalizing p with
  | nil => rfl
  | cons c cs ih => rw [past_cons, advance_down, ih, past_cons]

/-! ## Where a blank stands -/

/-- A blank is one of four characters. -/
theorem eq_of_isBlank {b : Char} (hb : isBlank b = true) : b = ' ' ∨ b = '\r' ∨ b = '\t' ∨ b = '\n' := by
  simpa [isBlank, or_assoc] using hb

/-- What goes on as long as characters have a property ends before one that has it not. -/
theorem takeWhile_append_cons {q : Char → Bool} {d : Char} (hd : q d = false) :
    (rest ++ d :: following).takeWhile q = rest.takeWhile q := by
  rw [List.takeWhile_append, List.takeWhile_cons_of_neg (by simp [hd]), List.append_nil]
  split
  · rename_i hall
    exact ((List.takeWhile_prefix q).eq_of_length hall).symm
  · rfl

/-- What follows on another character does not matter to whether the next character is a given one. -/
theorem head?_append_cons {d e : Char} (hd : d ≠ e) :
    (rest ++ d :: following).head? = some e ↔ rest.head? = some e := by
  cases rest with
  | nil => simp [hd]
  | cons x more => rfl

/-- A string that is closed ends in its own text. -/
theorem stringRest_append (hquote : '"' ∈ rest) : stringRest (rest ++ following) = stringRest rest := by
  obtain ⟨body, tail, rfl, hbody⟩ := List.eq_append_cons_of_mem hquote
  have hne : ∀ d ∈ body, decide (d ≠ '"') = true := by
    intro d hd
    exact decide_eq_true (ne_of_mem_of_not_mem hd hbody)
  unfold stringRest
  rw [List.append_assoc, List.takeWhile_append_of_pos hne, List.takeWhile_append_of_pos hne,
    List.dropWhile_append_of_pos hne, List.dropWhile_append_of_pos hne]
  rfl

section

variable {b : Char} (hb : isBlank b = true)

include hb

/-- The digits of a number end at a blank. -/
theorem numberRest_append_blank : numberRest (rest ++ b :: following) = numberRest rest := by
  have hdigit : b.isDigit = false := by
    rcases eq_of_isBlank hb with rfl | rfl | rfl | rfl <;> rfl
  have hpoint : b ≠ '.' := by
    rintro rfl
    exact nomatch hb
  have htake (cs : List Char) : (cs ++ b :: following).takeWhile Char.isDigit = cs.takeWhile Char.isDigit :=
    takeWhile_append_cons hdigit
  have hdrop : (rest ++ b :: following).dropWhile Char.isDigit = rest.dropWhile Char.isDigit ++ b :: following := by
    rw [List.dropWhile_append]
    split
    · rename_i hnil
      rw [List.isEmpty_iff.1 hnil, List.dropWhile_cons_of_neg (by rw [hdigit]; exact Bool.false_ne_true)]
      rfl
    · rfl
  unfold numberRest
  rw [htake, hdrop]
  congr 1
  -- Only a point and a digit behind the digits matter.
  cases rest.dropWhile Char.isDigit with
  | nil => simp [hpoint]
  | cons x more =>
    by_cases hx : x = '.'
    · subst hx
      cases more with
      | nil => simp [hdigit]
      | cons d more => simp only [List.cons_append, htake]
    · simp [hx]

/-- No comment starts over a blank. -/
theorem startsComment_append_blank : startsComment c (rest ++ b :: following) = startsComment c rest := by
  have hslash : b ≠ '/' := by
    rintro rfl
    exact nomatch hb
  unfold startsComment
  rw [decide_eq_decide.2 (head?_append_cons hslash)]

/-- A lexeme ends at a blank, unless it is an open string. -/
theorem lexemeRest_append_blank (hclosed : c = '"' → '"' ∈ rest) :
    lexemeRest c (rest ++ b :: following) = lexemeRest c rest := by
  have hequals : b ≠ '=' := by
    rintro rfl
    exact nomatch hb
  have hname : continuesName b = false := by
    rcases eq_of_isBlank hb with rfl | rfl | rfl | rfl <;> rfl
  have hnames : (rest ++ b :: following).takeWhile continuesName = rest.takeWhile continuesName :=
    takeWhile_append_cons hname
  unfold lexemeRest
  simp only [numberRest_append_blank hb, hnames, head?_append_cons hequals]
  by_cases hc : c = '"'
  · rw [stringRest_append (hclosed hc)]
  · simp only [hc, if_false]

end

/-- The longest piece at a place ends with the text above, unless it is an open string. -/
theorem pieceRest_append_newline (hclosed : c = '"' → '"' ∈ rest) :
    pieceRest c (rest ++ '\n' :: following) = pieceRest c rest := by
  have hcommentRest : commentRest (rest ++ '\n' :: following) = commentRest rest := takeWhile_append_cons rfl
  unfold pieceRest
  rw [startsComment_append_blank rfl, hcommentRest, lexemeRest_append_blank rfl hclosed]

/-- A string that is not closed is an error. -/
theorem ofLexeme_pieceRest_open (hopen : '"' ∉ rest) :
    Token.ofLexeme ('"' :: pieceRest '"' rest) = .error .unterminatedString := by
  rw [pieceRest_quote, stringRest_of_notMem hopen]
  exact (Slice.unterminated hopen).content_eq.symm

/-! ## One item behind the other -/

/-- Whether a place is before another one. -/
def Position.Before (p q : Position) : Prop :=
  p.line < q.line ∨ p.line = q.line ∧ p.column < q.column

/-- A character leads to a later place. -/
theorem Position.before_advance (p : Position) (c : Char) : p.Before (p.advance c) := by
  unfold Before advance
  split
  · exact .inl (Nat.lt_succ_self _)
  · exact .inr ⟨rfl, Nat.lt_succ_self _⟩

theorem Position.Before.trans {p q r : Position} (h : p.Before q) (h' : q.Before r) : p.Before r := by
  unfold Before at *
  omega

/-- A place is not before itself. -/
theorem Position.Before.ne {q : Position} (h : p.Before q) : p ≠ q := by
  rintro rfl
  unfold Before at h
  omega

/-- No item of a text stands before the text. -/
theorem position_of_mem_scanFrom {skip : Nat} {cs : List Char} : ∀ item ∈ scanFrom p skip cs,
    p = item.position ∨ p.Before item.position := by
  induction cs generalizing p skip with
  | nil =>
    cases skip <;> exact nofun
  | cons c rest ih =>
    have hrest {skip : Nat} : ∀ item ∈ scanFrom (p.advance c) skip rest, p.Before item.position := by
      intro item hitem
      rcases ih item hitem with heq | hbefore
      · rw [← heq]
        exact p.before_advance c
      · exact (p.before_advance c).trans hbefore
    intro item hitem
    cases skip with
    | succ skip => exact .inr (hrest item hitem)
    | zero =>
      rw [scanFrom] at hitem
      split_ifs at hitem
      · exact .inr (hrest item hitem)
      · exact .inr (hrest item hitem)
      · rcases List.mem_cons.1 hitem with rfl | hitem
        · exact .inl rfl
        · exact .inr (hrest item hitem)

/-- Items stand one behind the other. -/
theorem pairwise_scanFrom (p : Position) (skip : Nat) (cs : List Char) :
    (scanFrom p skip cs).Pairwise fun item later => item.position.Before later.position := by
  induction cs generalizing p skip with
  | nil => cases skip <;> exact .nil
  | cons c rest ih =>
    cases skip with
    | succ skip => exact ih _ _
    | zero =>
      rw [scanFrom]
      split_ifs
      · exact ih _ _
      · exact ih _ _
      · refine .cons (fun later hlater => ?_) (ih _ _)
        rcases position_of_mem_scanFrom later hlater with heq | hbefore
        · rw [← heq]
          exact p.before_advance c
        · exact (p.before_advance c).trans hbefore

/-- A string that is left open is the last of all items. -/
theorem getLast?_scanFrom_of_open (p : Position) (cs : List Char) :
    ∀ item ∈ scanFrom p 0 cs, item.content = .error .unterminatedString → (scanFrom p 0 cs).getLast? = some item := by
  induction hlength : cs.length using Nat.strong_induction_on generalizing p cs with
  | _ n ih =>
    cases cs with
    | nil => exact nofun
    | cons c rest =>
      obtain ⟨tail, hrest⟩ := pieceRest_prefix c rest
      have hshorter : tail.length < n := by
        rw [← hlength, List.length_cons, ← hrest, List.length_append]
        omega
      have hbehind := ih _ hshorter (p.past (c :: pieceRest c rest)) tail rfl
      intro item hitem hopen
      rw [scanFrom_cons p c hrest] at hitem ⊢
      cases hkind : isBlank c || startsComment c rest with
      | true =>
        simp only [hkind, if_true] at hitem ⊢
        exact hbehind item hitem hopen
      | false =>
        simp only [hkind, Bool.false_eq_true, if_false] at hitem ⊢
        rcases List.mem_cons.1 hitem with rfl | hitem
        · -- Nothing of the text is left behind an open string.
          have hslice := slice_pieceRest hkind
          rw [show Token.ofLexeme (c :: pieceRest c rest) = _ from hopen] at hslice
          obtain rfl := (isLongest_pieceRest hrest.symm).bounded.unterminated hslice
          rfl
        · rw [List.getLast?_cons_of_ne_nil]
          · exact hbehind item hitem hopen
          · exact List.ne_nil_of_mem hitem

/-! ## Two texts -/

/-- Whether no string is left open among items. -/
def IsClosed (items : List Item) : Prop :=
  ∀ item ∈ items, item.content ≠ .error .unterminatedString

/-- No string is left open if the last item is none. -/
theorem isClosed_of_scanItems_eq {text : String} {items : List Item} {last : Item}
    (h : scanItems text = items ++ [last]) (hlast : last.content ≠ .error .unterminatedString) :
    IsClosed (scanItems text) := by
  intro item hitem hopen
  have hend : (scanItems text).getLast? = some item := getLast?_scanFrom_of_open {} text.toList item hitem hopen
  rw [h, List.getLast?_concat] at hend
  rw [Option.some.inj hend] at hlast
  exact hlast hopen

/-- Scanning starts afresh on the line below a text. -/
theorem scanFrom_append_newline (p : Position) (cs following : List Char) (hclosed : IsClosed (scanFrom p 0 cs)) :
    scanFrom p 0 (cs ++ '\n' :: following) = scanFrom p 0 cs ++ scanFrom ((p.past cs).advance '\n') 0 following := by
  induction hlength : cs.length using Nat.strong_induction_on generalizing p cs with
  | _ n ih =>
    cases cs with
    | nil => rfl
    | cons c rest =>
      obtain ⟨tail, hrest⟩ := pieceRest_prefix c rest
      rw [scanFrom_cons p c hrest] at hclosed
      have hquote : c = '"' → '"' ∈ rest := by
        rintro rfl
        by_contra hopen
        exact hclosed _ List.mem_cons_self (ofLexeme_pieceRest_open hopen)
      have hpiece : pieceRest c (rest ++ '\n' :: following) = pieceRest c rest := pieceRest_append_newline hquote
      have hsplit : pieceRest c (rest ++ '\n' :: following) ++ (tail ++ '\n' :: following) =
          rest ++ '\n' :: following := by
        rw [hpiece, ← List.append_assoc, hrest]
      have hshorter : tail.length < n := by
        rw [← hlength, List.length_cons, ← hrest, List.length_append]
        omega
      have hpast : (p.past (c :: pieceRest c rest)).past tail = p.past (c :: rest) := by
        rw [← Position.past_append, List.cons_append, hrest]
      have hbelow (hclosed : IsClosed (scanFrom (p.past (c :: pieceRest c rest)) 0 tail)) :=
        ih _ hshorter (p.past (c :: pieceRest c rest)) tail hclosed rfl
      rw [hpast] at hbelow
      rw [List.cons_append, scanFrom_cons p c hsplit, scanFrom_cons p c hrest, startsComment_append_blank rfl,
        hpiece]
      split_ifs at hclosed ⊢
      · exact hbelow hclosed
      · rw [hbelow (fun item hitem => hclosed item (List.mem_cons_of_mem _ hitem))]
        rfl

/-- How far down a text starts that follows another one on a new line. -/
def linesAbove (text : String) : Nat := (endPosition text).line + 1

/-- The characters of two texts, one below the other. -/
theorem toList_append_newline (above below : String) :
    (above ++ "\n" ++ below).toList = above.toList ++ '\n' :: below.toList := by
  simp

/-- The place below a text is the start, further down. -/
theorem advance_newline_past (text : String) :
    (Position.past {} text.toList).advance '\n' = ({} : Position).down (linesAbove text) := by
  rw [Position.advance, if_pos rfl, Position.down, linesAbove, endPosition, Nat.zero_add]

/-- The items of a text below another one that leaves no string open. -/
theorem scanItems_append_newline {above : String} (below : String) (hclosed : IsClosed (scanItems above)) :
    scanItems (above ++ "\n" ++ below) = scanItems above ++ (scanItems below).map (Item.down (linesAbove above)) := by
  unfold scanItems
  rw [toList_append_newline, scanFrom_append_newline _ _ _ hclosed, advance_newline_past, scanFrom_down]

/-- Where a text ends that lies below another one. -/
theorem endPosition_append_newline (above below : String) :
    endPosition (above ++ "\n" ++ below) = (endPosition below).down (linesAbove above) := by
  rw [endPosition, toList_append_newline, Position.past_append, Position.past_cons, advance_newline_past,
    Position.past_down]
  rfl

end Lox
