import Mathlib.Data.List.TakeWhile
import Mathlib.Tactic.SplitIfs
import Lox.Token.Scan

/-!
# Pieces of a text

The lexical grammar, stated for itself: what separates (`Separator`), the lexemes of the tokens (`Lexeme`), and what
yields an item, be it a token or an error (`Slice`). A piece is the longest at its place if no longer one starts there
(`IsLongest`). At every place exactly one piece is (`isLongest_pieceRest`, `IsLongest.unique`), and what it yields can
be told from it alone (`Slice.content_eq`).
-/

namespace Lox

/-! ## The lexical grammar -/

/-- What separates: a blank, or a comment, which does not leave its line. -/
inductive Separator : List Char → Prop
  | blank {c : Char} (hc : c = ' ' ∨ c = '\t' ∨ c = '\r' ∨ c = '\n') : Separator [c]
  | comment {body : List Char} (hbody : '\n' ∉ body) : Separator ('/' :: '/' :: body)

/-- The lexemes of the tokens. -/
inductive Lexeme : List Char → Token → Prop
  | symbol (s : Symbol) : Lexeme s.lexeme (.symbol s)
  | keyword (k : Keyword) : Lexeme k.word.toList (.keyword k)
  /-- A letter or `_`, then letters, numerals and `_`, if that is no reserved word. -/
  | identifier {c : Char} {rest : List Char} (hfirst : startsName c = true)
      (hrest : ∀ d ∈ rest, continuesName d = true) (hword : ∀ k : Keyword, k.word.toList ≠ c :: rest) :
      Lexeme (c :: rest) (.identifier (String.ofList (c :: rest)))
  /-- Digits, one at least. -/
  | whole {c : Char} {digits : List Char} (hfirst : c.isDigit = true) (hdigits : ∀ d ∈ digits, d.isDigit = true) :
      Lexeme (c :: digits) (.number (Number.ofLiteral (c :: digits)))
  /-- Digits on both sides of a point. -/
  | fraction {c d : Char} {digits decimals : List Char} (hfirst : c.isDigit = true)
      (hdigits : ∀ d ∈ digits, d.isDigit = true) (hdecimal : d.isDigit = true)
      (hdecimals : ∀ d ∈ decimals, d.isDigit = true) :
      Lexeme (c :: (digits ++ '.' :: d :: decimals))
        (.number (Number.ofLiteral (c :: (digits ++ '.' :: d :: decimals))))
  /-- What stands between two quotes, without a quote in it. -/
  | string {body : List Char} (hbody : '"' ∉ body) : Lexeme ('"' :: (body ++ ['"'])) (.string (String.ofList body))

/-- What yields an item: the lexeme of a token, a character with which nothing else starts, or a quote and what follows
it, without another quote. -/
inductive Slice : List Char → Except ScanError Token → Prop
  | token {piece : List Char} {t : Token} (h : Lexeme piece t) : Slice piece (.ok t)
  | unrecognized {c : Char} (hlexeme : ∀ rest t, ¬Lexeme (c :: rest) t) (hseparator : ∀ rest, ¬Separator (c :: rest)) :
      Slice [c] (.error .unrecognizedToken)
  | unterminated {body : List Char} (hbody : '"' ∉ body) : Slice ('"' :: body) (.error .unterminatedString)

/-- A piece of a text separates or yields an item. -/
def IsPiece (piece : List Char) : Prop :=
  Separator piece ∨ ∃ content, Slice piece content

/-- A piece is the longest at its place: whatever piece starts there is not longer. -/
structure IsLongest (piece following : List Char) : Prop where
  isPiece : IsPiece piece
  longest : ∀ other, IsPiece other → other <+: piece ++ following → other.length ≤ piece.length

variable {c d : Char} {rest other piece piece' following following' : List Char} {content : Except ScanError Token}

/-! ## Symbols and words -/

/-- A lexeme writes its symbol. -/
@[simp] theorem Symbol.ofLexeme?_lexeme (s : Symbol) : Symbol.ofLexeme? s.lexeme = some s := by
  cases s <;> rfl

/-- What writes a symbol is its lexeme. -/
theorem Symbol.eq_lexeme_of_ofLexeme? {s : Symbol} (h : Symbol.ofLexeme? piece = some s) : piece = s.lexeme := by
  unfold Symbol.ofLexeme? at h
  split at h <;> first | exact Option.some.inj h ▸ rfl | exact nomatch h

/-- A reserved word is its keyword. -/
@[simp] theorem Keyword.ofWord?_word (k : Keyword) : Keyword.ofWord? k.word = some k := by
  cases k <;> rfl

/-- What is read as a keyword is its word. -/
theorem Keyword.eq_word_of_ofWord? {word : String} {k : Keyword} (h : Keyword.ofWord? word = some k) :
    word = k.word := by
  unfold Keyword.ofWord? at h
  split at h <;> first | exact Option.some.inj h ▸ rfl | exact nomatch h

/-- A reserved word is made of the characters of a name. -/
theorem Keyword.word_eq_cons (k : Keyword) :
    ∃ c rest, k.word.toList = c :: rest ∧ startsName c = true ∧ ∀ d ∈ rest, continuesName d = true := by
  cases k <;> exact ⟨_, _, rfl, rfl, List.all_eq_true.1 rfl⟩

/-! ## Characters -/

/-- A character that starts a name is none that does not. -/
theorem ne_of_startsName (hc : startsName c = true) (hd : startsName d = false) : c ≠ d := by
  rintro rfl
  exact nomatch hc.symm.trans hd

/-- A digit is no character that is none. -/
theorem ne_of_isDigit (hc : c.isDigit = true) (hd : d.isDigit = false) : c ≠ d := by
  rintro rfl
  exact nomatch hc.symm.trans hd

/-- The digits stand next to each other. -/
theorem toNat_of_isDigit (hc : c.isDigit = true) : 48 ≤ c.toNat ∧ c.toNat ≤ 57 := by
  simpa [Char.isDigit, UInt32.le_iff_toNat_le] using hc

/-- A digit starts no name. -/
theorem startsName_of_isDigit (hc : c.isDigit = true) : startsName c = false := by
  have hunderscore : c ≠ '_' := ne_of_isDigit hc rfl
  have hbounds := toNat_of_isDigit hc
  have hupper : c.isUpper = false := decide_eq_false fun (h : 65 ≤ c.toNat ∧ c.toNat ≤ 90) => by omega
  have hlower : c.isLower = false :=
    (congrArg (· && _) (decide_eq_false fun (h : 97 ≤ c.toNat) => by omega)).trans (Bool.false_and _)
  have hletter : Unicode.isLetter c = false := by
    unfold Unicode.isLetter
    rw [if_pos (by omega)]
    exact congrArg₂ or hupper hlower
  simp [startsName, hletter, hunderscore]

/-- What starts a name is no digit. -/
theorem isDigit_of_startsName (hc : startsName c = true) : c.isDigit = false := by
  rw [← Bool.not_eq_true]
  intro hdigit
  exact nomatch hc.symm.trans (startsName_of_isDigit hdigit)

/-- No symbol starts with the first character of a name. -/
theorem ofLexeme?_of_startsName (hc : startsName c = true) : Symbol.ofLexeme? (c :: rest) = none := by
  rw [Option.eq_none_iff_forall_ne_some]
  intro s hs
  have hlexeme := Symbol.eq_lexeme_of_ofLexeme? hs
  cases s <;> exact nomatch (List.cons.inj hlexeme).1 ▸ hc

/-- No symbol starts with a digit. -/
theorem ofLexeme?_of_isDigit (hc : c.isDigit = true) : Symbol.ofLexeme? (c :: rest) = none := by
  rw [Option.eq_none_iff_forall_ne_some]
  intro s hs
  have hlexeme := Symbol.eq_lexeme_of_ofLexeme? hs
  cases s <;> exact nomatch (List.cons.inj hlexeme).1 ▸ hc

/-- No symbol starts with a quote. -/
theorem ofLexeme?_quote : Symbol.ofLexeme? ('"' :: rest) = none := by
  rw [Option.eq_none_iff_forall_ne_some]
  intro s hs
  have hlexeme := Symbol.eq_lexeme_of_ofLexeme? hs
  cases s <;> exact absurd (List.cons.inj hlexeme).1 (by decide)

/-! ## How a slice starts -/

/-- The digits of a number behind the first one, and the point among them. -/
def IsNumberRest (rest : List Char) : Prop :=
  (∀ d ∈ rest, d.isDigit = true) ∨ ∃ (digits decimals : List Char) (d : Char), rest = digits ++ '.' :: d :: decimals ∧
    (∀ d ∈ digits, d.isDigit = true) ∧ d.isDigit = true ∧ ∀ d ∈ decimals, d.isDigit = true

/-- The first character of a lexeme tells what kind of lexeme it is. -/
theorem Lexeme.starts {t : Token} (h : Lexeme piece t) :
    ∃ c rest, piece = c :: rest ∧ ((∃ s : Symbol, s.lexeme = c :: rest) ∨
      (startsName c = true ∧ ∀ d ∈ rest, continuesName d = true) ∨ (c.isDigit = true ∧ IsNumberRest rest) ∨
      c = '"' ∧ ∃ body, '"' ∉ body ∧ rest = body ++ ['"']) := by
  cases h with
  | symbol s =>
    obtain ⟨c, rest, hs⟩ : ∃ c rest, s.lexeme = c :: rest := by cases s <;> exact ⟨_, _, rfl⟩
    exact ⟨c, rest, hs, .inl ⟨s, hs⟩⟩
  | keyword k =>
    obtain ⟨c, rest, hk, hfirst, hrest⟩ := k.word_eq_cons
    exact ⟨c, rest, hk, .inr (.inl ⟨hfirst, hrest⟩)⟩
  | identifier hfirst hrest => exact ⟨_, _, rfl, .inr (.inl ⟨hfirst, hrest⟩)⟩
  | whole hfirst hdigits => exact ⟨_, _, rfl, .inr (.inr (.inl ⟨hfirst, .inl hdigits⟩))⟩
  | fraction hfirst hdigits hdecimal hdecimals =>
    exact ⟨_, _, rfl, .inr (.inr (.inl ⟨hfirst, .inr ⟨_, _, _, rfl, hdigits, hdecimal, hdecimals⟩⟩))⟩
  | string hbody => exact ⟨_, _, rfl, .inr (.inr (.inr ⟨rfl, _, hbody, rfl⟩))⟩

/-- Characters of a name, the first of which may start one, are a lexeme. -/
theorem exists_lexeme_of_startsName (hfirst : startsName c = true) (hrest : ∀ d ∈ rest, continuesName d = true) :
    ∃ t, Lexeme (c :: rest) t := by
  by_cases hword : ∃ k : Keyword, k.word.toList = c :: rest
  · obtain ⟨k, hk⟩ := hword
    rw [← hk]
    exact ⟨_, .keyword k⟩
  · exact ⟨_, .identifier hfirst hrest fun k hk => hword ⟨k, hk⟩⟩

/-- Digits, and perhaps a point among them, are a lexeme. -/
theorem exists_lexeme_of_isDigit (hfirst : c.isDigit = true) (hrest : IsNumberRest rest) :
    ∃ t, Lexeme (c :: rest) t := by
  rcases hrest with hdigits | ⟨digits, decimals, d, rfl, hdigits, hdecimal, hdecimals⟩
  · exact ⟨_, .whole hfirst hdigits⟩
  · exact ⟨_, .fraction hfirst hdigits hdecimal hdecimals⟩

/-- What writes a symbol is a lexeme. -/
theorem lexeme_of_ofLexeme? {s : Symbol} (h : Symbol.ofLexeme? piece = some s) : Lexeme piece (.symbol s) := by
  rw [Symbol.eq_lexeme_of_ofLexeme? h]
  exact .symbol s

/-- A slice is not empty. -/
theorem Slice.ne_nil (h : Slice piece content) : piece ≠ [] := by
  cases h with
  | token h =>
    obtain ⟨c, rest, rfl, -⟩ := h.starts
    exact List.cons_ne_nil c rest
  | _ => exact List.cons_ne_nil _ _

/-! ## What a slice yields -/

/-- A number is read from digits at the start. -/
theorem ofLexeme_of_isDigit (hc : c.isDigit = true) :
    Token.ofLexeme (c :: rest) = .ok (.number (Number.ofLiteral (c :: rest))) := by
  unfold Token.ofLexeme
  rw [ofLexeme?_of_isDigit hc]
  exact if_pos hc

/-- A name is read from its characters, unless it is a reserved word. -/
theorem ofLexeme_of_startsName (hc : startsName c = true) (hword : Keyword.ofWord? (String.ofList (c :: rest)) = none) :
    Token.ofLexeme (c :: rest) = .ok (.identifier (String.ofList (c :: rest))) := by
  unfold Token.ofLexeme
  rw [ofLexeme?_of_startsName hc]
  dsimp only
  rw [isDigit_of_startsName hc, if_neg Bool.false_ne_true, if_neg (ne_of_startsName hc rfl), if_pos hc, hword]

/-- A character with which no lexeme starts is not recognized. -/
theorem ofLexeme_of_not_lexeme (hlexeme : ∀ rest t, ¬Lexeme (c :: rest) t) :
    Token.ofLexeme [c] = .error .unrecognizedToken := by
  have hsymbol : Symbol.ofLexeme? [c] = none := by
    rw [Option.eq_none_iff_forall_ne_some]
    exact fun s hs => hlexeme [] _ (lexeme_of_ofLexeme? hs)
  have hdigit : c.isDigit = false := by
    rw [← Bool.not_eq_true]
    exact fun h => hlexeme [] _ (.whole h nofun)
  have hname : startsName c = false := by
    rw [← Bool.not_eq_true]
    intro h
    obtain ⟨t, ht⟩ : ∃ t, Lexeme [c] t := exists_lexeme_of_startsName h nofun
    exact hlexeme [] t ht
  have hquote : c ≠ '"' := by
    rintro rfl
    exact hlexeme ['"'] _ (@Lexeme.string [] nofun)
  simp [Token.ofLexeme, hsymbol, hdigit, hquote, hname]

/-- What a slice yields is told from it alone. -/
theorem Slice.content_eq (h : Slice piece content) : content = Token.ofLexeme piece := by
  have hdigit : '"'.isDigit = false := rfl
  cases h with
  | token h =>
    cases h with
    | symbol s =>
      unfold Token.ofLexeme
      rw [Symbol.ofLexeme?_lexeme]
    | keyword k => cases k <;> rfl
    | @identifier c rest hfirst hrest hword =>
      refine (ofLexeme_of_startsName hfirst ?_).symm
      rw [Option.eq_none_iff_forall_ne_some]
      intro k hk
      refine hword k ?_
      rw [← Keyword.eq_word_of_ofWord? hk, String.toList_ofList]
    | whole hfirst => rw [ofLexeme_of_isDigit hfirst]
    | fraction hfirst => rw [ofLexeme_of_isDigit hfirst]
    | string hbody => simp [Token.ofLexeme, ofLexeme?_quote, hdigit]
  | unrecognized hlexeme => exact (ofLexeme_of_not_lexeme hlexeme).symm
  | @unterminated body hbody =>
    have hlast : body.getLast? ≠ some '"' := fun h => hbody (List.mem_of_getLast? h)
    simp [Token.ofLexeme, ofLexeme?_quote, hdigit, hlast]

/-- A slice yields one thing only. -/
theorem Slice.unique {content' : Except ScanError Token} (h : Slice piece content) (h' : Slice piece content') :
    content = content' :=
  h.content_eq.trans h'.content_eq.symm

/-- No lexeme starts like a piece that separates, but for the single `/`. -/
theorem Separator.not_lexeme (h : Separator piece) (t : Token) : ¬Lexeme piece t := by
  intro hlexeme
  obtain ⟨c, rest, rfl, hkind⟩ := hlexeme.starts
  cases h with
  | blank hc =>
    rcases hkind with ⟨s, hs⟩ | ⟨hname, -⟩ | ⟨hdigit, -⟩ | ⟨rfl, -⟩
    · rcases hc with rfl | rfl | rfl | rfl <;> cases s <;> exact absurd hs (by decide)
    · rcases hc with rfl | rfl | rfl | rfl <;> exact nomatch hname
    · rcases hc with rfl | rfl | rfl | rfl <;> exact nomatch hdigit
    · exact absurd hc (by decide)
  | comment hbody =>
    rcases hkind with ⟨s, hs⟩ | ⟨hname, -⟩ | ⟨hdigit, -⟩ | ⟨hquote, -⟩
    · cases s <;> simp [Symbol.lexeme] at hs
    · exact nomatch hname
    · exact nomatch hdigit
    · exact absurd hquote (by decide)

/-- What separates yields nothing. -/
theorem Separator.not_slice (h : Separator piece) : ¬Slice piece content := by
  intro hslice
  cases hslice with
  | token hlexeme => exact h.not_lexeme _ hlexeme
  | unrecognized hlexeme hseparator => exact hseparator [] h
  | unterminated hbody =>
    cases h with
    | blank hc => exact absurd hc (by decide)

/-! ## The longest piece -/

/-- The characters of the longest piece behind its first character. -/
def pieceRest (c : Char) (rest : List Char) : List Char :=
  if isBlank c then [] else if startsComment c rest then commentRest rest else lexemeRest c rest

/-- Of what starts a text, all of which has a property, there is no more than what has the property at its start. -/
theorem length_le_takeWhile {p : Char → Bool} {xs ys : List Char} (h : xs <+: ys) (hp : ∀ x ∈ xs, p x = true) :
    xs.length ≤ (ys.takeWhile p).length := by
  obtain ⟨zs, rfl⟩ := h
  rw [List.takeWhile_append_of_pos hp, List.length_append]
  exact Nat.le_add_right _ _

/-- A name goes on as long as its characters do. -/
theorem pieceRest_of_startsName (hc : startsName c = true) : pieceRest c rest = rest.takeWhile continuesName := by
  have hne {d : Char} (hd : startsName d = false) : c ≠ d := ne_of_startsName hc hd
  have hdigit := isDigit_of_startsName hc
  simp [pieceRest, isBlank, startsComment, lexemeRest, hc, hdigit, hne (d := ' ') rfl, hne (d := '\r') rfl,
    hne (d := '\t') rfl, hne (d := '\n') rfl, hne (d := '/') rfl, hne (d := '!') rfl, hne (d := '=') rfl,
    hne (d := '<') rfl, hne (d := '>') rfl, hne (d := '"') rfl]

/-- A number goes on as long as its digits do. -/
theorem pieceRest_of_isDigit (hc : c.isDigit = true) : pieceRest c rest = numberRest rest := by
  have hne {d : Char} (hd : d.isDigit = false) : c ≠ d := ne_of_isDigit hc hd
  simp [pieceRest, isBlank, startsComment, lexemeRest, hc, hne (d := ' ') rfl, hne (d := '\r') rfl,
    hne (d := '\t') rfl, hne (d := '\n') rfl, hne (d := '/') rfl, hne (d := '!') rfl, hne (d := '=') rfl,
    hne (d := '<') rfl, hne (d := '>') rfl]

/-- A string goes on to the next quote, or to the end. -/
theorem pieceRest_quote : pieceRest '"' rest = stringRest rest := rfl

/-- A comment goes on to the end of the line. -/
theorem pieceRest_comment : pieceRest '/' ('/' :: rest) = '/' :: rest.takeWhile (· ≠ '\n') := rfl

/-- No number is longer than its digits go on. -/
theorem length_le_numberRest (hother : IsNumberRest other) (hpre : other <+: rest) :
    other.length ≤ (numberRest rest).length := by
  unfold numberRest
  rw [List.length_append]
  rcases hother with hdigits | ⟨digits, decimals, d, rfl, hdigits, hdecimal, hdecimals⟩
  · exact Nat.le_add_right_of_le (length_le_takeWhile hpre hdigits)
  · obtain ⟨tail, rfl⟩ := hpre
    have hpoint : ('.' :: d :: (decimals ++ tail)).takeWhile Char.isDigit = [] := rfl
    have hpoint' : ('.' :: d :: (decimals ++ tail)).dropWhile Char.isDigit = '.' :: d :: (decimals ++ tail) := rfl
    rw [List.append_assoc, List.cons_append, List.cons_append, List.takeWhile_append_of_pos hdigits,
      List.dropWhile_append_of_pos hdigits, hpoint, hpoint']
    simp only [hdecimal, if_true, List.takeWhile_append_of_pos hdecimals, List.length_append, List.length_cons,
      List.length_nil]
    omega

/-- What goes on as long as the digits of a number do is a number's. -/
theorem isNumberRest_numberRest (rest : List Char) : IsNumberRest (numberRest rest) := by
  have hdigits : ∀ d ∈ rest.takeWhile Char.isDigit, d.isDigit = true := fun d hd => List.mem_takeWhile_imp hd
  unfold numberRest
  split
  · rename_i d more hpoint
    split_ifs with hd
    · exact .inr ⟨_, _, d, rfl, hdigits, hd, fun _ hx => List.mem_takeWhile_imp hx⟩
    · rw [List.append_nil]
      exact .inl hdigits
  · rw [List.append_nil]
    exact .inl hdigits

/-- No string is longer than it goes on to the next quote. -/
theorem length_le_stringRest {body tail : List Char} (hbody : '"' ∉ body) (hrest : rest = body ++ '"' :: tail) :
    (body ++ ['"']).length ≤ (stringRest rest).length := by
  have hnoquote : ∀ d ∈ body, decide (d ≠ '"') = true := by
    intro d hd
    rw [decide_eq_true_eq]
    rintro rfl
    exact hbody hd
  rw [stringRest, hrest, List.takeWhile_append_of_pos hnoquote, List.dropWhile_append_of_pos hnoquote]
  simp

/-- A quote and what goes on to the next one are a slice. -/
theorem slice_stringRest (rest : List Char) : ∃ content, Slice ('"' :: stringRest rest) content := by
  have hbody : '"' ∉ rest.takeWhile (· ≠ '"') := by
    intro hmem
    exact absurd (List.mem_takeWhile_imp hmem) (by decide)
  unfold stringRest
  cases htail : rest.dropWhile (· ≠ '"') with
  | nil =>
    rw [List.take_nil, List.append_nil]
    exact ⟨_, .unterminated hbody⟩
  | cons d tail =>
    have hquote := List.head?_dropWhile_not (fun c => decide (c ≠ '"')) rest
    rw [htail] at hquote
    obtain rfl : d = '"' := by simpa using hquote
    exact ⟨_, .token (.string hbody)⟩

/-- No piece is longer than the longest one. -/
theorem length_le_pieceRest (hother : IsPiece (c :: other)) (hpre : other <+: rest) :
    other.length ≤ (pieceRest c rest).length := by
  rcases hother with hseparator | ⟨content, hslice⟩
  · cases hseparator with
    | blank => exact Nat.zero_le _
    | @comment body hbody =>
      obtain ⟨tail, rfl⟩ := hpre
      rw [List.cons_append, pieceRest_comment, List.length_cons, List.length_cons]
      refine Nat.succ_le_succ (length_le_takeWhile (List.prefix_append body tail) fun x hx => ?_)
      rw [decide_eq_true_eq]
      rintro rfl
      exact hbody hx
  · cases hslice with
    | token hlexeme =>
      obtain ⟨_, _, heq, hkind⟩ := hlexeme.starts
      obtain ⟨rfl, rfl⟩ := List.cons.inj heq
      rcases hkind with ⟨s, hs⟩ | ⟨hname, hnames⟩ | ⟨hdigit, hdigits⟩ | ⟨rfl, body, hbody, rfl⟩
      · -- A symbol has at most two characters, and the second one is an equals sign.
        obtain ⟨tail, rfl⟩ := hpre
        cases s <;> obtain ⟨rfl, rfl⟩ := List.cons.inj hs <;>
          first | exact Nat.zero_le _ | exact Nat.le_refl 1
      · rw [pieceRest_of_startsName hname]
        exact length_le_takeWhile hpre hnames
      · rw [pieceRest_of_isDigit hdigit]
        exact length_le_numberRest hdigits hpre
      · obtain ⟨tail, rfl⟩ := hpre
        rw [pieceRest_quote]
        exact length_le_stringRest hbody (List.append_assoc ..)
    | unrecognized => exact Nat.zero_le _
    | unterminated hbody =>
      rw [pieceRest_quote, stringRest, List.length_append]
      refine Nat.le_add_right_of_le (length_le_takeWhile hpre fun x hx => ?_)
      rw [decide_eq_true_eq]
      rintro rfl
      exact hbody hx

/-- Where neither a blank nor a comment stands, what scanning takes together is a slice. -/
theorem slice_lexemeRest (hblank : isBlank c = false) (hcomment : startsComment c rest = false) :
    ∃ content, Slice (c :: lexemeRest c rest) content := by
  unfold lexemeRest
  split_ifs with hequal hnext hdigit hquote hname
  · -- The symbols that an equals sign continues.
    have hcases : c = '!' ∨ c = '=' ∨ c = '<' ∨ c = '>' := by simpa [or_assoc] using hequal
    rcases hcases with rfl | rfl | rfl | rfl
    · exact ⟨_, .token (.symbol .bangEqual)⟩
    · exact ⟨_, .token (.symbol .equalEqual)⟩
    · exact ⟨_, .token (.symbol .lessEqual)⟩
    · exact ⟨_, .token (.symbol .greaterEqual)⟩
  · have hcases : c = '!' ∨ c = '=' ∨ c = '<' ∨ c = '>' := by simpa [or_assoc] using hequal
    rcases hcases with rfl | rfl | rfl | rfl
    · exact ⟨_, .token (.symbol .bang)⟩
    · exact ⟨_, .token (.symbol .equal)⟩
    · exact ⟨_, .token (.symbol .less)⟩
    · exact ⟨_, .token (.symbol .greater)⟩
  · obtain ⟨t, ht⟩ := exists_lexeme_of_isDigit hdigit (isNumberRest_numberRest rest)
    exact ⟨_, .token ht⟩
  · rw [hquote]
    exact slice_stringRest rest
  · have hnames : ∀ d ∈ rest.takeWhile continuesName, continuesName d = true := fun d hd => List.mem_takeWhile_imp hd
    obtain ⟨t, ht⟩ := exists_lexeme_of_startsName hname hnames
    exact ⟨_, .token ht⟩
  · cases hsymbol : Symbol.ofLexeme? [c] with
    | some s => exact ⟨_, .token (lexeme_of_ofLexeme? hsymbol)⟩
    | none =>
      refine ⟨_, .unrecognized (fun other t hlexeme => ?_) fun other hseparator => ?_⟩
      · obtain ⟨_, _, heq, hkind⟩ := hlexeme.starts
        obtain ⟨rfl, rfl⟩ := List.cons.inj heq
        rcases hkind with ⟨s, hs⟩ | ⟨hname', -⟩ | ⟨hdigit', -⟩ | ⟨rfl, -⟩
        · cases s <;> obtain ⟨rfl, -⟩ := List.cons.inj hs <;> exact nomatch hsymbol
        · exact hname hname'
        · exact hdigit hdigit'
        · exact hquote rfl
      · cases hseparator with
        | blank hc => rcases hc with rfl | rfl | rfl | rfl <;> exact nomatch hblank
        | comment => exact nomatch hsymbol

/-- Where a blank or a comment stands, the longest piece separates. -/
theorem separator_pieceRest (h : (isBlank c || startsComment c rest) = true) : Separator (c :: pieceRest c rest) := by
  unfold pieceRest
  by_cases hblank : isBlank c = true
  · rw [if_pos hblank]
    simp only [isBlank, Bool.or_eq_true, decide_eq_true_eq] at hblank
    refine .blank ?_
    rcases hblank with ((rfl | rfl) | rfl) | rfl <;> simp
  · have hcomment : startsComment c rest = true := by simpa [hblank] using h
    rw [if_neg hblank, if_pos hcomment]
    obtain ⟨rfl, more, rfl⟩ : c = '/' ∧ ∃ more, rest = '/' :: more := by
      simpa [startsComment, List.head?_eq_some_iff] using hcomment
    refine .comment fun hmem => ?_
    exact absurd (List.mem_takeWhile_imp hmem) (by decide)

/-- Anywhere else, the longest piece yields an item. -/
theorem slice_pieceRest (h : (isBlank c || startsComment c rest) = false) :
    Slice (c :: pieceRest c rest) (Token.ofLexeme (c :: pieceRest c rest)) := by
  obtain ⟨hblank, hcomment⟩ := Bool.or_eq_false_iff.1 h
  obtain ⟨content, hslice⟩ := slice_lexemeRest hblank hcomment
  have hrest : pieceRest c rest = lexemeRest c rest := by
    simp [pieceRest, hblank, hcomment]
  rw [hrest, ← hslice.content_eq]
  exact hslice

/-- What goes on as long as the longest piece is a piece. -/
theorem isPiece_pieceRest (c : Char) (rest : List Char) : IsPiece (c :: pieceRest c rest) := by
  cases h : isBlank c || startsComment c rest with
  | true => exact .inl (separator_pieceRest h)
  | false => exact .inr ⟨_, slice_pieceRest h⟩

/-- A piece starts with some character. -/
theorem IsPiece.exists_cons (h : IsPiece piece) : ∃ c rest, piece = c :: rest := by
  rcases h with hseparator | ⟨content, hslice⟩
  · cases hseparator <;> exact ⟨_, _, rfl⟩
  · exact List.exists_cons_of_ne_nil hslice.ne_nil

/-- The longest piece stands at the start of what remains. -/
theorem pieceRest_prefix (c : Char) (rest : List Char) : pieceRest c rest <+: rest := by
  have htake (p : Char → Bool) : rest.takeWhile p <+: rest := List.takeWhile_prefix p
  have hnumber : numberRest rest <+: rest := by
    unfold numberRest
    split
    · rename_i d more hpoint
      split_ifs
      · refine ⟨more.dropWhile Char.isDigit, ?_⟩
        rw [List.append_assoc, List.cons_append, List.cons_append, List.takeWhile_append_dropWhile, ← hpoint,
          List.takeWhile_append_dropWhile]
      · rw [List.append_nil]
        exact htake _
    · rw [List.append_nil]
      exact htake _
  have hstring : stringRest rest <+: rest := by
    refine ⟨(rest.dropWhile (· ≠ '"')).drop 1, ?_⟩
    rw [stringRest, List.append_assoc, List.take_append_drop, List.takeWhile_append_dropWhile]
  unfold pieceRest lexemeRest
  split_ifs with hblank hcomment hequal hnext
  · exact List.nil_prefix
  · exact htake _
  · obtain ⟨more, rfl⟩ := List.head?_eq_some_iff.1 hnext
    exact ⟨more, rfl⟩
  · exact List.nil_prefix
  · exact hnumber
  · exact hstring
  · exact htake _
  · exact List.nil_prefix

/-- The longest piece at a place. -/
theorem isLongest_pieceRest (h : rest = pieceRest c rest ++ following) :
    IsLongest (c :: pieceRest c rest) following := by
  refine ⟨isPiece_pieceRest c rest, fun other hother hpre => ?_⟩
  obtain ⟨d, other, rfl⟩ := hother.exists_cons
  rw [List.cons_append, ← h, List.cons_prefix_cons] at hpre
  obtain ⟨rfl, hpre⟩ := hpre
  exact Nat.succ_le_succ (length_le_pieceRest hother hpre)

/-- There is only one longest piece at a place. -/
theorem IsLongest.unique (h : IsLongest piece following) (h' : IsLongest piece' following')
    (htext : piece ++ following = piece' ++ following') : piece = piece' ∧ following = following' := by
  have hle : piece.length ≤ piece'.length :=
    h'.longest piece h.isPiece (by rw [← htext]; exact List.prefix_append _ _)
  have hge : piece'.length ≤ piece.length :=
    h.longest piece' h'.isPiece (by rw [htext]; exact List.prefix_append _ _)
  exact List.append_inj htext (Nat.le_antisymm hle hge)

/-- The longest piece goes on as long as what belongs to its first character. -/
theorem IsLongest.eq_pieceRest (h : IsLongest (c :: rest) following) : rest = pieceRest c (rest ++ following) := by
  obtain ⟨following', hfollowing'⟩ := pieceRest_prefix c (rest ++ following)
  have htext : c :: rest ++ following = c :: pieceRest c (rest ++ following) ++ following' := by
    rw [List.cons_append, List.cons_append, hfollowing']
  exact (List.cons.inj (h.unique (isLongest_pieceRest hfollowing'.symm) htext).1).2

/-! ## Where a piece ends -/

/-- What stands behind a piece does not go on with it. -/
structure Bounded (piece following : List Char) : Prop where
  /-- A comment ends before the end of its line, or at the end of the text. -/
  comment : ∀ body, piece = '/' :: '/' :: body → following = [] ∨ ∃ more, following = '\n' :: more
  /-- A word is a full run of the characters of a name. -/
  word : ∀ c rest, piece = c :: rest → startsName c = true → ∀ d more, following = d :: more → continuesName d = false
  /-- A number is followed by no digit. -/
  digit : ∀ c rest, piece = c :: rest → c.isDigit = true → ∀ d more, following = d :: more → d.isDigit = false
  /-- A number without a point is not followed by a point before a digit. -/
  point : ∀ c rest, piece = c :: rest → c.isDigit = true → (∀ d ∈ rest, d.isDigit = true) →
    ∀ d more, following = '.' :: d :: more → d.isDigit = false
  /-- A symbol that an equals sign would continue is followed by none. -/
  equals : piece = ['!'] ∨ piece = ['='] ∨ piece = ['<'] ∨ piece = ['>'] → ∀ more, following ≠ '=' :: more
  /-- An unterminated string is all that remains. -/
  unterminated : Slice piece (.error .unterminatedString) → following = []

/-- What is taken as long as it has a property is followed by what has it not. -/
theorem not_of_eq_takeWhile {p : Char → Bool} (h : rest = (rest ++ d :: following).takeWhile p) : p d = false := by
  rw [← Bool.not_eq_true]
  intro hd
  have hall : ∀ x ∈ rest, p x = true := by
    intro x hx
    rw [h] at hx
    exact List.mem_takeWhile_imp hx
  rw [List.takeWhile_append_of_pos hall, List.takeWhile_cons_of_pos hd] at h
  have hlength := congrArg List.length h
  rw [List.length_append, List.length_cons] at hlength
  omega

/-- What follows the longest piece makes no longer piece with it. -/
theorem IsLongest.not_isPiece_append (more : List Char) {tail : List Char} (h : IsLongest piece (d :: more ++ tail)) :
    ¬IsPiece (piece ++ d :: more) := by
  intro hlonger
  have hlength := h.longest _ hlonger ⟨tail, List.append_assoc ..⟩
  rw [List.length_append, List.length_cons] at hlength
  omega

/-- A digit more makes a longer number. -/
theorem IsNumberRest.append_digit (hrest : IsNumberRest rest) (hd : d.isDigit = true) : IsNumberRest (rest ++ [d]) := by
  have hall {digits : List Char} (hdigits : ∀ x ∈ digits, x.isDigit = true) :
      ∀ x ∈ digits ++ [d], x.isDigit = true := by
    intro x hx
    rcases List.mem_append.1 hx with hx | hx
    · exact hdigits x hx
    · rwa [List.mem_singleton.1 hx]
  rcases hrest with hdigits | ⟨digits, decimals, e, rfl, hdigits, hdecimal, hdecimals⟩
  · exact .inl (hall hdigits)
  · exact .inr ⟨digits, decimals ++ [d], e, by simp, hdigits, hdecimal, hall hdecimals⟩

/-- The longest piece ends where it has to. -/
theorem IsLongest.bounded (h : IsLongest piece following) : Bounded piece following where
  comment := by
    rintro body rfl
    cases following with
    | nil => exact .inl rfl
    | cons d more =>
      have hrest := h.eq_pieceRest
      rw [List.cons_append, pieceRest_comment] at hrest
      have hd := not_of_eq_takeWhile (List.cons.inj hrest).2
      exact .inr ⟨more, by rw [of_not_not (of_decide_eq_false hd)]⟩
  word := by
    rintro c rest rfl hc d more rfl
    have hrest := h.eq_pieceRest
    rw [pieceRest_of_startsName hc] at hrest
    exact not_of_eq_takeWhile hrest
  digit := by
    rintro c rest rfl hc d more rfl
    have hrest : IsNumberRest rest := by
      rw [h.eq_pieceRest, pieceRest_of_isDigit hc]
      exact isNumberRest_numberRest _
    rw [← Bool.not_eq_true]
    intro hd
    obtain ⟨t, ht⟩ := exists_lexeme_of_isDigit hc (hrest.append_digit hd)
    exact IsLongest.not_isPiece_append [] h (.inr ⟨_, .token ht⟩)
  point := by
    rintro c rest rfl hc hrest d more rfl
    rw [← Bool.not_eq_true]
    intro hd
    obtain ⟨t, ht⟩ := exists_lexeme_of_isDigit hc (.inr ⟨rest, [], d, rfl, hrest, hd, nofun⟩)
    exact IsLongest.not_isPiece_append [d] h (.inr ⟨_, .token ht⟩)
  equals := by
    rintro hpiece more rfl
    refine IsLongest.not_isPiece_append [] h (.inr ?_)
    rcases hpiece with rfl | rfl | rfl | rfl
    · exact ⟨_, .token (.symbol .bangEqual)⟩
    · exact ⟨_, .token (.symbol .equalEqual)⟩
    · exact ⟨_, .token (.symbol .lessEqual)⟩
    · exact ⟨_, .token (.symbol .greaterEqual)⟩
  unterminated := by
    intro hslice
    cases following with
    | nil => rfl
    | cons d more =>
      cases hslice with
      | unterminated hbody =>
        -- The next character would belong to the string, be it a quote or not.
        refine absurd (.inr ?_) (IsLongest.not_isPiece_append [] h)
        by_cases hd : d = '"'
        · rw [hd]
          exact ⟨_, .token (.string hbody)⟩
        · exact ⟨_, .unterminated (by simp [hbody, Ne.symm hd])⟩

end Lox
