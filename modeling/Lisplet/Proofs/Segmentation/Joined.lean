import Lisplet.Proofs.Grammar.Reading
import Lisplet.Proofs.Places.Lines
import Lisplet.Proofs.Relocation.Basic
import Lisplet.Proofs.Segmentation.Cut

/-!
# Texts on lines of their own

What a text begins with is not changed by a line feed and whatever stands behind it, unless it is a
block comment that is never closed (`Segment.Begins.append_newline`).  So a text can be cut where
such a line feed stands: its tokens are those of what stands before, and those of what stands
behind, further down by as many lines as stand before (`tokenize_append_newline`).
-/

namespace Lisplet

theorem LongestRun.append_newline {p : Char → Bool} {run rest : List Char}
    (h : LongestRun p run rest) (more : List Char) (hp : p '\n' = false) :
    LongestRun p run (rest ++ '\n' :: more) := by
  refine ⟨h.1, fun c hc => ?_⟩
  cases rest with
  | nil =>
    obtain rfl : '\n' = c := by simpa using hc
    exact hp
  | cons d ds => exact h.2 c (by simpa using hc)

namespace Segment

theorem head?_append_newline {rest : List Char} {c : Char} (more : List Char)
    (h : rest.head? ≠ some c) (hc : c ≠ '\n') : (rest ++ '\n' :: more).head? ≠ some c := by
  cases rest with
  | nil => simpa using hc.symm
  | cons d ds => simpa using h

theorem not_goesOnWithFraction_append_newline {rest : List Char} (more : List Char)
    (h : ¬ GoesOnWithFraction rest) : ¬ GoesOnWithFraction (rest ++ '\n' :: more) := by
  rintro ⟨d, ds, hd, digit⟩
  match rest, hd with
  | [], hd => simp at hd
  | [c], hd =>
    obtain ⟨-, rfl, -⟩ : c = '.' ∧ '\n' = d ∧ more = ds := by simpa using hd
    simp at digit
  | c :: d' :: rest, hd =>
    obtain ⟨rfl, rfl, -⟩ : c = '.' ∧ d' = d ∧ rest ++ '\n' :: more = ds := by simpa using hd
    exact h ⟨d', rest, rfl, digit⟩

/-- The segment is a block comment that is never closed. -/
def IsOpenComment (s : Segment) : Prop :=
  ∃ body, s = comment (commentMark :: commentMark :: body) ∧ ¬ HasMark body

/-- What a text begins with is not changed by a line feed and what stands behind it. -/
theorem Begins.append_newline {cs rest : List Char} {s : Segment} (h : Begins cs s rest)
    (closed : ¬ s.IsOpenComment) (more : List Char) :
    Begins (cs ++ '\n' :: more) s (rest ++ '\n' :: more) := by
  cases h with
  | blank layout => exact .blank layout
  | lineComment run =>
    have := Begins.lineComment (run.append_newline more (by decide))
    simpa using this
  | @blockComment body _ first =>
    have := @Begins.blockComment body (rest ++ '\n' :: more) first
    simpa using this
  -- A comment that is never closed would take what stands behind the line feed as well.
  | openComment unclosed => exact absurd ⟨_, rfl, unclosed⟩ closed
  | @string content _ first =>
    have := @Begins.string content (rest ++ '\n' :: more) first
    simpa using this
  | single mem => exact .single mem
  | pair mem => exact .pair mem
  | @alone c d pair alone _ mem single =>
    refine .alone mem (head?_append_newline more single ?_)
    have : ∀ p ∈ pairs, p.2.1 ≠ '\n' := by decide
    exact this _ mem
  | integer ne run ends =>
    rw [List.append_assoc]
    exact .integer ne (run.append_newline more (by decide))
      (not_goesOnWithFraction_append_newline more ends)
  | decimal ne digits ne' run =>
    have := Begins.decimal ne digits ne' (run.append_newline more (by decide))
    simpa using this
  | keyword start run mem =>
    have := Begins.keyword start (run.append_newline more (by decide)) mem
    simpa using this
  | identifier start run noKeyword =>
    have := Begins.identifier start (run.append_newline more (by decide)) noKeyword
    simpa using this
  | other other single =>
    exact .other other fun h => head?_append_newline more (single h) (by decide)

/-- A text that is cut without anything left is cut the same before a line feed. -/
theorem Cuts.append_newline {cs ds left : List Char} {ss ss' : List Segment} (h : Cuts cs ss [])
    (closed : ∀ s ∈ ss, ¬ s.IsOpenComment) (h' : Cuts ds ss' left) :
    Cuts (cs ++ '\n' :: ds) (ss ++ blank '\n' :: ss') left := by
  generalize nothing : ([] : List Char) = left' at h
  induction h with
  | nil => exact .cons (.blank (by simp)) h'
  | unclosed => cases nothing
  | cons begins more ih =>
    obtain ⟨first, others⟩ := List.forall_mem_cons.1 closed
    exact .cons (begins.append_newline first ds) (ih others nothing)

end Segment

/-! ### Places further down -/

/-- The place in the same column a number of lines further down. -/
def Place.lower (k : Nat) (p : Place) : Place := ⟨p.line + k, p.column⟩

/-- The relocation a number of lines further down. -/
def Relocation.down (k : Nat) : Relocation := .lines fun line => line + k

theorem Place.advance_lower (k : Nat) (p : Place) (cs : List Char) :
    (p.lower k).advance cs = (p.advance cs).lower k := by
  induction cs generalizing p with
  | nil => rfl
  | cons c cs ih =>
    have step : (p.lower k).step c = (p.step c).lower k := by
      unfold Place.step Place.lower
      split
      · simp only [Nat.add_right_comm]
      · rfl
    rw [advance_cons, advance_cons, step, ih]

theorem Token.placedAt_lower (k : Nat) (p : Place) (kind : Kind) (lexeme : String)
    (literal : Value) :
    Token.placedAt (p.lower k) kind lexeme literal =
      Relocation.down k (Token.placedAt p kind lexeme literal) := by
  simp [Token.placedAt, Place.lower, Relocation.down, Relocation.lines]

namespace Segment

theorem tokens_append (p : Place) (ss ss' : List Segment) :
    tokens p (ss ++ ss') = tokens p ss ++ tokens (p.advance (ss.map text).flatten) ss' := by
  induction ss generalizing p with
  | nil => rfl
  | cons s ss ih =>
    simp only [List.cons_append, tokens, ih, List.append_assoc, List.map_cons, List.flatten_cons,
      Place.advance_append]

theorem tokens_blank (p : Place) (c : Char) (ss : List Segment) :
    tokens p (blank c :: ss) = tokens (p.step c) ss := rfl

theorem tokens_lower (k : Nat) (p : Place) (ss : List Segment) :
    tokens (p.lower k) ss = (tokens p ss).map (Relocation.down k) := by
  induction ss generalizing p with
  | nil => rfl
  | cons s ss ih =>
    have first : (s.token? (p.lower k)).toList = (s.token? p).toList.map (Relocation.down k) := by
      cases s with
      | blank c => rfl
      | comment text => rfl
      | lexeme kind text => simp [token?, Token.placedAt_lower]
    rw [tokens, tokens, first, Place.advance_lower, ih, List.map_append]

end Segment

/-! ### Tokens of texts on lines of their own -/

theorem Tokens.ext {ts ts' : Tokens} (ahead : ts.ahead = ts'.ahead) (last : ts.last = ts'.last) :
    ts = ts' := by
  cases ts
  cases ts'
  obtain rfl := ahead
  obtain rfl := last
  rfl

theorem exists_cuts_of_tokenize {source : String} {ts : Tokens} (h : tokenize source = .ok ts) :
    ∃ ss, Segment.Cuts source.toList ss [] ∧ ts.ahead = Segment.tokens .start ss ∧
      ts.last = Token.endOfText (Place.start.advance source.toList) := by
  have cuts := Segment.cuts_cut source.toList
  rcases cuts.left_cases with closed | ⟨body, unclosed, -⟩
  · rw [closed] at cuts
    rw [tokenize_of_closed cuts] at h
    cases h
    exact ⟨_, cuts, rfl, rfl⟩
  · rw [unclosed] at cuts
    rw [(tokenize_of_unclosed cuts).1] at h
    cases h

theorem kind_ne_eof_of_tokenize {source : String} {ts : Tokens} (h : tokenize source = .ok ts) :
    ∀ t ∈ ts.ahead, t.kind ≠ .eof := by
  obtain ⟨ss, cuts, ahead, -⟩ := exists_cuts_of_tokenize h
  rw [ahead]
  exact (cuts.tokensOf .start).2

/-- The scan of the text ends inside a block comment. -/
def EndsInOpenComment (source : String) : Prop :=
  ∃ s ∈ (Segment.cut source.toList).1, s.IsOpenComment

/-- Behind a text on lines of its own stand the tokens of what follows it, further down by the lines
of that text. -/
theorem tokenize_append_newline {u v : String} {tu tv : Tokens} (hu : tokenize u = .ok tu)
    (closed : ¬ EndsInOpenComment u) (hv : tokenize v = .ok tv) :
    tokenize (u ++ "\n" ++ v) =
      .ok ((tv.relocate (.down (u.toList.count '\n' + 1))).prepend tu.ahead) := by
  obtain ⟨su, cutU, aheadU, -⟩ := exists_cuts_of_tokenize hu
  obtain ⟨sv, cutV, aheadV, lastV⟩ := exists_cuts_of_tokenize hv
  -- Behind the line feed the columns begin anew, some lines further down.
  have below : (Place.start.advance u.toList).step '\n' =
      Place.start.lower (u.toList.count '\n' + 1) := by
    rw [Place.step, if_pos rfl, Place.line_advance]
    simp [Place.lower, Place.start, Nat.add_comm]
  have text : (u ++ "\n" ++ v).toList = u.toList ++ '\n' :: v.toList := by simp
  have cut := cutU.append_newline (fun s hs ho => closed ⟨s, by rwa [cutU.cut_eq], ho⟩) cutV
  rw [← text] at cut
  have flat := cutU.flatten_append
  rw [List.append_nil] at flat
  have behind : Place.start.advance (u ++ "\n" ++ v).toList =
      (Place.start.advance v.toList).lower (u.toList.count '\n' + 1) := by
    rw [text, Place.advance_append, Place.advance_cons, below, Place.advance_lower]
  rw [tokenize_of_closed cut]
  refine congrArg Except.ok (Tokens.ext ?_ ?_)
  · rw [Tokens.ahead_prepend, Tokens.ahead_relocate, aheadU, aheadV, Segment.tokens_append, flat,
      Segment.tokens_blank, below, Segment.tokens_lower]
  · rw [Tokens.last_prepend, Tokens.last_relocate, lastV]
    refine Eq.trans ?_ (Token.placedAt_lower _ _ .eof "" .null)
    exact congrArg Token.endOfText behind

end Lisplet
