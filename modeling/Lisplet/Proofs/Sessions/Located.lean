import Lisplet.Proofs.Segmentation.Cut
import Lisplet.Proofs.Sessions.Outcome

/-!
# Every failure of a run can be shown in its source

A failure that the run of a unit is left by has a token to blame, and the token comes from the unit
that is registered: it was read from it, or it is the quote that opens a string that is never
closed.  So its line is one of the lines of the unit, it can be looked up, and the report quotes it
(`failure_located`).  That holds also where a string that is never closed has stopped the reading
short of the end and runs over several lines.
-/

namespace Lisplet

/-- The token is the double quote, alone, that opens a string of the source that is never closed;
what stands before it is cut into segments. -/
def Token.IsOpenQuote (source : String) (t : Token) : Prop :=
  ∃ ss body, Segment.Cuts source.toList ss ('"' :: body) ∧ '"' ∉ body ∧
    t = Token.placedAt (Place.start.advance (ss.map Segment.text).flatten) .string "\"" .null

/-- The token is one that a failure of the kind may blame: one that was read from the source or, if
the failure is lexical, the quote that opens a string that is never closed. -/
def Token.ComesFrom (source : String) (t : Token) : FailureKind → Prop
  | .lexical => t.IsOpenQuote source
  | _ => ∃ ts, tokenize source = .ok ts ∧ t ∈ ts.toList

theorem isOpenQuote_of_unclosed {source : String} {e : UnclosedString}
    (h : tokenize source = .error e) : e.token.IsOpenQuote source := by
  have cuts := Segment.cuts_cut source.toList
  rcases cuts.left_cases with closed | ⟨body, unclosed, never⟩
  · rw [closed] at cuts
    rw [tokenize_of_closed cuts] at h
    cases h
  · rw [unclosed] at cuts
    rw [(tokenize_of_unclosed cuts).1] at h
    cases h
    exact ⟨_, body, cuts, never, rfl⟩

namespace Work

variable {source : String}

/-- A failure that can be explained blames a token that comes from the unit and stands on one of its
lines. -/
theorem Explained.exists_token {f : Failure} (h : Explained source (.failure f)) :
    ∃ t line, f.token = some t ∧ t.ComesFrom source f.kind ∧
      (readOf source).IsLine t.line line := by
  obtain ⟨t, line, token, isLine⟩ := h.exists_isLine
  refine ⟨t, line, token, ?_, isLine⟩
  cases h with
  | unclosed stopped =>
    cases token
    exact isOpenQuote_of_unclosed stopped
  | token read kind token' mem =>
    obtain rfl := Option.some.inj (token'.symm.trans token)
    unfold Token.ComesFrom
    split
    · exact absurd ‹_› kind
    · exact ⟨_, read, mem⟩

end Work

/-- **Every failure can be located and reported.**  Whatever failure the run of a unit is left by,
in whatever session, has a token to blame.  The token was read from that unit or, if the failure is
lexical, is the quote that opens a string that is never closed.  What was read of the unit is
registered, and the line of the token can be looked up in it; it is the line of that number among
the pieces of the unit between its line feeds.  So there is a report, and it quotes the line without
the blanks at its ends. -/
theorem failure_located {source : String} {s s' : Session} {trace : Trace} {f : Failure}
    (left : Work.run source s = (s', trace, .error (.failure f))) :
    ∃ t line, f.token = some t ∧ t.ComesFrom source f.kind ∧
      s'.reporter.source = some (readOf source) ∧ (readOf source).line t.line = .ok line ∧
      (∃ i : Nat, t.line = i + 1 ∧ (Text.lines source.toList)[i]? = some line) ∧
      s'.reporter.format .error f =
        .ok (s'.reporter.headline .error f ++ "\n" ++
          ("\n\t\"" ++ String.ofList (Text.trim line) ++ "\"\n\t" ++
            Text.bold s'.reporter.styled (some .red) (Reporter.carets line t))) := by
  have departure : (Work.run source s).2.2 = .error (.failure f) := by rw [left]
  obtain ⟨t, line, token, comesFrom, isLine⟩ := (Work.explained_of_run departure).exists_token
  have found := Lexer.line_eq_ok (begun_readOf source) isLine
  have session : s' = s.registered (readOf source) := by
    rw [← (Work.closes_run source).session_of_error departure, left]
  have registered : s'.reporter.source = some (readOf source) := by
    rw [session]
    rfl
  refine ⟨t, line, token, comesFrom, registered, found, ?_,
    Reporter.format_of_line .error registered token found⟩
  simpa only [Lexer.IsLine, source_readOf] using isLine

open Segment in
/-- A string that is never closed runs over two lines; the report quotes the one that it begins on,
without the blank before it. -/
theorem failure_located_open_string :
    let source := " \"a\nb"
    let s := Session.typed (Reporter.new true false)
    let quote : Token := ⟨.string, "\"", .null, 1, 2⟩
    let f : Failure := ⟨.lexical, some quote, "Unterminated string starting at ln 1, col 2"⟩
    Work.run source s = (s.registered (readOf source), .empty, .error (.failure f)) ∧
      quote.IsOpenQuote source ∧
      ∃ headline marks, (s.registered (readOf source)).reporter.format .error f =
        .ok (headline ++ "\n" ++ ("\n\t\"" ++ "\"a" ++ "\"\n\t" ++ marks)) := by
  intro source s quote f
  have chars : source.toList = [' ', '"', 'a', '\n', 'b'] :=
    show " \"a\nb".toList = _ from rfl
  have cuts : Cuts source.toList [blank ' '] ['"', 'a', '\n', 'b'] := by
    rw [chars]
    exact .of_next rfl (.unclosed (by simp))
  have unclosed := (tokenize_of_unclosed cuts).1
  have left : Work.run source s = (s.registered (readOf source), .empty, .error (.failure f)) :=
    Work.closing_of_error (Work.parse_of_unclosed unclosed s)
  obtain ⟨t, line, token, comesFrom, -, -, ⟨i, number, piece⟩, report⟩ := failure_located left
  obtain rfl : quote = t := Option.some.inj token
  obtain rfl : i = 0 := by
    have number : (1 : Int) = i + 1 := number
    omega
  rw [chars] at piece
  obtain rfl : [' ', '"', 'a'] = line := Option.some.inj piece
  exact ⟨left, comesFrom, _, _, report⟩

end Lisplet
