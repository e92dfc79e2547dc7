import Lox.Proofs.Grammar.Lines
import Lox.Proofs.Recovery.Resumption
import Lox.Proofs.Token.Positions

/-!
# What follows a program

A program that can be read does not matter to what is reported of the text below it. The declarations are read one after
the other, and none of them looks further than to see that no `else` follows; behind the last one the stream is that of
the text below, only further down, and is read as it would be alone (`program_of_spells`). So what is reported of both
texts is what is reported of the second one, on later lines (`parse_below_valid`).
-/

namespace Lox

open Lox.Parser Lox.TokenStream Lox.Grammar

variable {n : Nat} {s rest : TokenStream} {above below : String} {p : Program}

/-- A program with declarations before it. -/
def ParsedOn.behind (first : Program) : Parsed Program → Parsed Program
  | ok others rest reports => ok (first ++ others : Program) rest reports
  | panic rest reports => panic rest reports
  | starved => starved

/-- Declarations before a program report nothing. -/
theorem ParsedOn.reports_behind (first : Program) (r : Parsed Program) : (r.behind first).reports = r.reports := by
  cases r <;> rfl

/-- Behind a declaration that is read without a report, the others are read. -/
theorem program_of_reads {first : Stmt} (hend : s.isAtEof = false) (h : Reads (declaration n) s first rest) :
    program (n + 1) s = (program n rest).behind [first] := by
  have hattempt : Reads (attempt (declaration n)) s (some first) rest := by
    rw [Reads, attempt, h]
  rw [program, bind_of_reads (reads_atEof.2 ⟨hend.symm, rfl⟩), if_neg Bool.false_ne_true, bind_of_reads hattempt]
  show Parser.bind (program n) _ rest = _
  rw [Parser.bind]
  cases program n rest with
  | ok others rest' reports => exact congrArg (ParsedOn.ok (first :: others) rest') (List.append_nil reports)
  | panic rest' reports => rfl
  | starved => rfl

/-- Behind the declarations of a derivation, reading goes on with what follows them, as if it started there. -/
theorem program_of_spells : ∀ (body : Derivation .declarations) {n : Nat} {s : TokenStream},
    s.Spells body.tokens rest → ¬rest.Starts (.keyword .elseWord) → enoughSteps s.length ≤ n →
    ∃ m, enoughSteps rest.length ≤ m ∧ program n s = (program m rest).behind body.tree
  | .noDeclaration, n, s, hspell, _, hn => by
    obtain rfl : rest = s := hspell
    refine ⟨n, hn, ?_⟩
    show program n rest = (program n rest).behind []
    cases program n rest <;> rfl
  | .declarations first others, n, s, hspell, helse, hn => by
    obtain ⟨mid, hfirst, hothers⟩ := spells_append.1 hspell
    obtain ⟨t, hstarts, hbegins⟩ := starts_declaration hfirst
    have hend : s.isAtEof = false := by
      refine hstarts.isAtEof_eq_false ?_
      cases t with
      | eof => exact absurd hbegins Bool.false_ne_true
      | _ => rfl
    unfold enoughSteps at hn
    obtain ⟨n, rfl⟩ : ∃ k, n = k + 1 := ⟨n - 1, by omega⟩
    -- There are steps enough, so the declaration is read, and it consumes something.
    have hends : Ends (declaration n) s s.length := ends_declaration (by omega)
    have hread : Reads (declaration n) s first.tree mid :=
      (complete first n s mid hfirst (not_starts_else hothers helse)).resolve_left hends.ne_starved
    have hlength : mid.length < s.length := by
      rw [Ends, hread] at hends
      exact hends
    have hmid : enoughSteps mid.length ≤ n := by
      unfold enoughSteps
      omega
    obtain ⟨m, hm, hprogram⟩ := program_of_spells others hothers helse hmid
    refine ⟨m, hm, ?_⟩
    rw [program_of_reads hend hread, hprogram]
    show ((program m rest).behind others.tree).behind [first.tree] =
      (program m rest).behind (first.tree :: others.tree)
    cases program m rest <;> rfl

/-! ## Texts -/

/-- A text starts as many lines down as the newlines above it and the one before it count. -/
theorem linesAbove_eq (text : String) : linesAbove text = text.toList.count '\n' + 1 :=
  congrArg (· + 1) (Position.past_isBehind text.toList).line

/-- What a text does not start with, its items do not start with. -/
theorem head?_scanItems_ne {t : Token} (h : ∀ item, (scan below).head? = some item → item.content ≠ .ok t) :
    ∀ item, (scanItems below).head? = some item → item.content ≠ .ok t := by
  intro item hitem
  refine h item ?_
  obtain ⟨more, hmore⟩ := List.head?_eq_some_iff.1 hitem
  rw [scan_eq, hmore]
  rfl

/-- A valid text does not matter to what is reported of the text below it, unless that starts with `else`. Of both texts
together is reported what is reported of the second one alone, in the same order, as many lines further down as the
first one has newlines and one more; and if the second one is a program too, they are read as the one program followed by
the other. -/
theorem parse_below_valid (habove : Program.parse above = .ok p)
    (hbelow : ∀ item, (scan below).head? = some item → item.content ≠ .ok (.keyword .elseWord)) :
    (ofText (above ++ "\n" ++ below)).faults =
        (ofText below).faults.map (Diagnostic.down (above.toList.count '\n' + 1)) ∧
      (∀ ds, Program.parse below = .error ds → Program.parse (above ++ "\n" ++ below) =
        .error (ds.map (Diagnostic.down (above.toList.count '\n' + 1)))) ∧
      ∀ q, Program.parse below = .ok q → Program.parse (above ++ "\n" ++ below) = .ok (p ++ q) := by
  obtain ⟨body, hbody, rfl⟩ := exists_derives habove
  rw [← linesAbove_eq]
  -- The items of the first text spell its declarations; what is left is the second text, further down.
  have hspell : (ofText (above ++ "\n" ++ below)).Spells body.tokens ((ofText below).down (linesAbove above)) :=
    spells_iff.2 ⟨scanItems above, scanItems_append_newline below hbody.isClosed,
      (endPosition_append_newline above below).symm, hbody⟩
  have helse := not_starts_down (linesAbove above) (head?_scanItems_ne hbelow)
  obtain ⟨m, hm, hprogram⟩ := program_of_spells body hspell helse (Nat.le_refl _)
  have hlength : ((ofText below).down (linesAbove above)).length = (ofText below).length := List.length_map _
  rw [hlength] at hm
  have hfaults : (ofText (above ++ "\n" ++ below)).faults =
      (ofText below).faults.map (Diagnostic.down (linesAbove above)) := by
    rw [faults, hprogram, ParsedOn.reports_behind]
    exact (reports_program_down (linesAbove above) hm).2
  refine ⟨hfaults, fun ds hds => ?_, fun q hq => parse_append_newline habove hq⟩
  obtain ⟨rfl, hne⟩ := parse_eq_error_iff.1 hds
  exact parse_eq_error_iff.2 ⟨hfaults, fun hnil => hne (List.map_eq_nil_iff.1 hnil)⟩

/-- An `if` that an `else` could follow, in a text of two lines. -/
def openIf : String := "// no else\nif (a) b;"

/-- A statement that ends too early, and another one behind it. -/
def endsEarly : String := "print ;\nelse;\nvar x = @;"

/-- What is wrong with the second text is reported two lines further down. -/
theorem parse_below_valid_openIf :
    (∃ p, Program.parse openIf = .ok p) ∧
      (∀ item, (scan endsEarly).head? = some item → item.content ≠ .ok (.keyword .elseWord)) ∧
      Program.parse (openIf ++ "\n" ++ endsEarly) =
        .error [⟨⟨2, 6⟩, .expressionExpected⟩, ⟨⟨4, 8⟩, .scan .unrecognizedToken⟩] := by
  have hopen : Program.parse openIf = .ok [.conditional (.variable "a") (.expression (.variable "b")) none] :=
    (Program.parse_eq _).trans rfl
  have hstart : ∀ item, (scan endsEarly).head? = some item → item.content ≠ .ok (.keyword .elseWord) := by
    intro item hitem
    rw [scan_eq] at hitem
    obtain rfl : ⟨⟨0, 0⟩, .ok (.keyword .printWord)⟩ = item := Option.some.inj hitem
    exact nofun
  have hearly : Program.parse endsEarly =
      .error [⟨⟨0, 6⟩, .expressionExpected⟩, ⟨⟨2, 8⟩, .scan .unrecognizedToken⟩] := (Program.parse_eq _).trans rfl
  exact ⟨⟨_, hopen⟩, hstart, (parse_below_valid hopen hstart).2.1 _ hearly⟩

end Lox
