import Lisplet.Proofs.Places.Distinct
import Mathlib.Data.List.Forall2
import Mathlib.Data.List.Induction

/-!
# Offsets of tokens and the table of lines

The place of a token is that of the first character of its lexeme.  `Token.StandsAt cs p t` says so
in offsets: the lexeme of `t` stands in the text `cs` from the offset `p` on, the line of `t` counts
the line feeds before `p`, and its column counts from where that line begins.  After one reading of
a source every token stands at the offset of its segment, the one that ends the text stands behind
everything, and the quote that opens a string that is never closed stands where it is; and each
piece of the source between its line feeds can be looked up by its number, and no other line
(`tokenize_positions`).
-/

namespace Lisplet

namespace Text

/-! ### Lines in their text -/

theorem lines_eq_splitOn (cs : List Char) : lines cs = cs.splitOn '\n' := by
  induction cs with
  | nil => rw [lines, List.splitOn_nil]
  | cons c cs ih =>
    rw [lines, List.splitOn_cons_eq_if_modifyHead, ← ih]
    by_cases h : c = '\n'
    · simp [h]
    · cases hl : lines cs with
      | nil => exact absurd hl (lines_ne_nil cs)
      | cons l ls => simp [h]

/-- Between the texts `before` and `after` stands one whole line: it holds no line feed, and on
either side of it there is one, or nothing at all. -/
structure IsLineBetween (before line after : List Char) : Prop where
  begins : ∀ c ∈ before.getLast?, c = '\n'
  within : '\n' ∉ line
  ends : ∀ c ∈ after.head?, c = '\n'

/-- Every place in a text is on a line. -/
theorem exists_isLineBetween (u v : List Char) : ∃ before front back after,
    u = before ++ front ∧ v = back ++ after ∧ IsLineBetween before (front ++ back) after := by
  -- The line goes back to the last line feed of `u` and on to the first one of `v`.
  have front : ∃ before front, u = before ++ front ∧ (∀ c ∈ before.getLast?, c = '\n') ∧
      '\n' ∉ front := by
    induction u using List.reverseRecOn with
    | nil => exact ⟨[], [], rfl, by simp, by simp⟩
    | append_singleton u c ih =>
      by_cases hc : c = '\n'
      · exact ⟨u ++ [c], [], by simp, by simp [hc], by simp⟩
      · obtain ⟨before, front, rfl, begins, within⟩ := ih
        exact ⟨before, front ++ [c], by simp, begins, by simpa [within] using Ne.symm hc⟩
  obtain ⟨before, front, rfl, begins, within⟩ := front
  have run := longestRun_takeWhile (· != '\n') v
  refine ⟨before, front, v.takeWhile (· != '\n'), v.dropWhile (· != '\n'), rfl,
    List.takeWhile_append_dropWhile.symm, begins, ?_, fun c hc => by simpa using run.2 c hc⟩
  rw [List.mem_append, not_or]
  exact ⟨within, fun mem => by simpa using run.1 _ mem⟩

/-- A whole line is found under the number of line feeds before it. -/
theorem IsLineBetween.getElem?_lines {before line after : List Char}
    (h : IsLineBetween before line after) :
    (lines (before ++ line ++ after))[before.count '\n']? = some line := by
  have behind : (lines (line ++ after))[0]? = some line := by
    cases after with
    | nil => rw [List.append_nil, lines_eq_splitOn, List.splitOn_eq_singleton h.within]; rfl
    | cons c after =>
      obtain rfl := h.ends c rfl
      rw [lines_eq_splitOn, List.splitOn_append_cons_self_of_not_mem h.within]
      rfl
  rcases List.eq_nil_or_concat before with rfl | ⟨before, c, rfl⟩
  · simpa using behind
  · obtain rfl := h.begins c (by simp)
    rw [lines_eq_splitOn, List.concat_eq_append, List.append_assoc, List.append_assoc,
      List.singleton_append, List.splitOn_append_cons_self, ← lines_eq_splitOn, ← lines_eq_splitOn,
      List.getElem?_append_right (by simp [length_lines])]
    simpa [length_lines] using behind

/-- The line that the offset `p` is on begins at the offset `b`: behind the last line feed before
`p`, or else at the beginning of the text. -/
structure BeginsLine (cs : List Char) (p b : Nat) : Prop where
  le : b ≤ p
  feed : b = 0 ∨ cs[b - 1]? = some '\n'
  within : ∀ i, b ≤ i → i < p → cs[i]? ≠ some '\n'

theorem IsLineBetween.beginsLine {before front back after : List Char}
    (h : IsLineBetween before (front ++ back) after) :
    BeginsLine (before ++ front ++ (back ++ after)) (before ++ front).length before.length where
  le := by simp
  feed := by
    rcases List.eq_nil_or_concat before with rfl | ⟨before, c, rfl⟩
    · exact .inl rfl
    · obtain rfl := h.begins c (by simp)
      right
      simp
  within i le lt := by
    have within : '\n' ∉ front := fun mem => h.within (List.mem_append_left back mem)
    rw [List.getElem?_append_left lt, List.getElem?_append_right le]
    exact fun found => within (List.mem_of_getElem? found)

end Text

/-! ### Places as offsets -/

theorem Place.column_advance_start {before front : List Char}
    (begins : ∀ c ∈ before.getLast?, c = '\n') (within : '\n' ∉ front) :
    (Place.start.advance (before ++ front)).column = front.length + 1 := by
  rw [advance_append, column_advance within, Nat.add_comm]
  congr 1
  rcases List.eq_nil_or_concat before with rfl | ⟨before, c, rfl⟩
  · rfl
  · obtain rfl := begins c (by simp)
    rw [List.concat_eq_append, advance_append, advance_cons, advance_nil, step, if_pos rfl]

/-- The lexeme of the token stands in the text from the offset on, and the line and the column of
the token are those of the offset. -/
structure Token.StandsAt (cs : List Char) (p : Nat) (t : Token) : Prop where
  line : t.line = 1 + ((cs.take p).count '\n' : Nat)
  column : ∃ b, Text.BeginsLine cs p b ∧ t.column = p - b + 1
  lexeme : (cs.drop p).take t.lexeme.length = t.lexeme.toList

theorem Token.standsAt_placedAt {cs u text rest : List Char} (h : cs = u ++ (text ++ rest))
    (k : Kind) (v : Value) :
    (Token.placedAt (Place.start.advance u) k (String.ofList text) v).StandsAt cs u.length := by
  subst h
  refine ⟨?_, ?_, ?_⟩
  · simp [placedAt, Place.line_advance, Place.start]
  · obtain ⟨before, front, back, after, rfl, behind, line⟩ :=
      Text.exists_isLineBetween u (text ++ rest)
    have within : '\n' ∉ front := fun mem => line.within (List.mem_append_left back mem)
    have column := Place.column_advance_start line.begins within
    refine ⟨before.length, by rw [behind]; exact line.beginsLine, ?_⟩
    simp only [placedAt, column, List.length_append]
    omega
  · simp [placedAt]

namespace Segment

/-- The offsets of the lexemes among consecutive segments, of which the first one begins at `p`. -/
def offsets (p : Nat) : List Segment → List Nat
  | [] => []
  | lexeme _ text :: ss => p :: offsets (p + text.length) ss
  | s :: ss => offsets (p + s.text.length) ss

/-- The tokens of segments stand at the offsets of the lexemes. -/
theorem standsAt_tokens {cs u rest : List Char} {ss : List Segment}
    (h : cs = u ++ ((ss.map text).flatten ++ rest)) :
    List.Forall₂ (Token.StandsAt cs) (offsets u.length ss)
      (tokens (Place.start.advance u) ss) := by
  induction ss generalizing u with
  | nil => exact .nil
  | cons s ss ih =>
    rw [List.map_cons, List.flatten_cons, List.append_assoc] at h
    have behind := ih (u := u ++ s.text) (by rw [h, List.append_assoc])
    rw [Place.advance_append, List.length_append] at behind
    cases s with
    | blank c => exact behind
    | comment text => exact behind
    | lexeme k text => exact .cons (Token.standsAt_placedAt h k _) behind

end Segment

/-! ### The table of lines -/

namespace Lexer

/-- Once reading has begun, and before it is repeated, a line that is none of the text cannot be
looked up. -/
theorem line_eq_error {l : Lexer} {m : Nat} (endings : l.endings = some m) (once : m ≤ 1) {n : Int}
    (none : ¬ (1 ≤ n ∧ n ≤ l.source.count '\n' + 1)) :
    l.line n = .error ⟨l.closedLines.length, n⟩ := by
  have length : l.closedLines.length = l.source.count '\n' + m := by
    simp [closedLines, endings, Text.length_lines]
  have notOpen : ¬ (n = l.closedLines.length + 1 ∧ l.endings.getD 0 = 0) := by
    rintro ⟨rfl, unended⟩
    have : m = 0 := by simpa [endings] using unended
    omega
  rw [line, if_neg notOpen]
  split
  · have outside : l.closedLines[(n - 1).toNat]? = Option.none := by
      rw [List.getElem?_eq_none_iff]
      omega
    rw [outside]
  · rfl

/-- The lines from the first to the one behind the last line feed are the pieces of the text between
its line feeds. -/
theorem exists_line_eq_ok {l : Lexer} {n : Int} (begun : l.endings.isSome)
    (inside : 1 ≤ n ∧ n ≤ l.source.count '\n' + 1) :
    ∃ line, (l.source.splitOn '\n')[(n - 1).toNat]? = some line ∧ l.line n = .ok line := by
  rw [← Text.lines_eq_splitOn]
  have lt : (n - 1).toNat < (Text.lines l.source).length := by
    rw [Text.length_lines]
    omega
  have found := List.getElem?_eq_getElem lt
  exact ⟨_, found, line_eq_ok begun ⟨(n - 1).toNat, by omega, found⟩⟩

end Lexer

theorem source_of_tokenize (source : String) :
    (Lexer.ofSource source).tokenize.2.source = source.toList := by
  simp only [Lexer.tokenize, Lexer.ofSource]
  split <;> rfl

theorem endings_of_tokenize (source : String) :
    ∃ m, (Lexer.ofSource source).tokenize.2.endings = some m ∧ m ≤ 1 := by
  simp only [Lexer.tokenize, Lexer.ofSource]
  split
  · exact ⟨0, rfl, by omega⟩
  · exact ⟨1, rfl, by omega⟩

theorem tokens_of_tokenize {source : String} {ts : Tokens} (h : tokenize source = .ok ts) :
    (Lexer.ofSource source).tokenize.2.tokens = ts.toList := by
  rcases hs : scan source.toList with ⟨tokens, unclosed⟩
  simp only [tokenize, Lexer.tokenize, Lexer.ofSource, hs] at h
  simp only [Lexer.tokenize, Lexer.ofSource, hs]
  cases unclosed with
  | some e => cases h
  | none =>
    cases h
    simp [Lexer.tokens, hs, Tokens.toList, Lexer.eof]

/-- In a text that is read to its end every token stands at the offset of its segment, and the one
that ends the text stands behind everything. -/
theorem standsAt_of_closed {source : String} {ss : List Segment}
    (h : Segment.Cuts source.toList ss []) :
    ∃ ts, tokenize source = .ok ts ∧
      List.Forall₂ (Token.StandsAt source.toList)
        (Segment.offsets 0 ss ++ [source.toList.length]) ts.toList ∧ ts.last.lexeme = "" := by
  have tokens := Segment.standsAt_tokens (u := []) h.flatten_append.symm
  have behind : source.toList = source.toList ++ ([] ++ []) := by simp
  have ended : (Lexer.ofSource source).eof.StandsAt source.toList source.toList.length :=
    Token.standsAt_placedAt behind .eof .null
  exact ⟨_, tokenize_of_closed h, List.rel_append tokens (.cons ended .nil), rfl⟩

/-- Where a string is never closed, the tokens before it stand at the offsets of their segments, and
its opening quote stands where these end. -/
theorem standsAt_of_unclosed {source : String} {ss : List Segment} {body : List Char}
    (h : Segment.Cuts source.toList ss ('"' :: body)) :
    ∃ e, tokenize source = .error e ∧
      List.Forall₂ (Token.StandsAt source.toList)
        (Segment.offsets 0 ss ++ [source.toList.length - ('"' :: body).length])
        ((Lexer.ofSource source).tokenize.2.tokens ++ [e.token]) ∧
      e.token.lexeme = "\"" := by
  have flat := h.flatten_append
  have tokens := Segment.standsAt_tokens (u := []) flat.symm
  have opening : source.toList = (ss.map Segment.text).flatten ++ (['"'] ++ body) := flat.symm
  have quote := Token.standsAt_placedAt opening .string .null
  have offset : source.toList.length - ('"' :: body).length =
      (ss.map Segment.text).flatten.length := by
    rw [← congrArg List.length flat, List.length_append, Nat.add_sub_cancel]
  obtain ⟨stopped, read⟩ := tokenize_of_unclosed h
  refine ⟨_, stopped, ?_, rfl⟩
  rw [offset, read]
  exact List.rel_append tokens (.cons quote .nil)

/-- **Places and lines are exact.**  Reading a source once cuts it into segments, and each token
that was read stands at the offset of its segment: its lexeme is the part of the source from there
on, its line and column are those of the offset.  The token that ends the text stands at the length
of the source; where a string is never closed, its opening quote stands where the segments end.
Afterwards the lines from the first to the one behind the last line feed can be looked up, and are
the pieces of the source between its line feeds; any other number is refused. -/
theorem tokenize_positions (source : String) :
    ∃ l ss left, (Lexer.ofSource source).tokenize = (tokenize source, l) ∧
      Segment.Cuts source.toList ss left ∧
      ((∃ ts, tokenize source = .ok ts ∧ left = [] ∧ l.tokens = ts.toList ∧
          List.Forall₂ (Token.StandsAt source.toList)
            (Segment.offsets 0 ss ++ [source.toList.length]) ts.toList ∧ ts.last.lexeme = "") ∨
        (∃ e body, tokenize source = .error e ∧ left = '"' :: body ∧
          List.Forall₂ (Token.StandsAt source.toList)
            (Segment.offsets 0 ss ++ [source.toList.length - left.length])
            (l.tokens ++ [e.token]) ∧
          e.token.lexeme = "\"")) ∧
      ∀ n : Int,
        (1 ≤ n ∧ n ≤ source.toList.count '\n' + 1 →
          ∃ line, (source.toList.splitOn '\n')[(n - 1).toNat]? = some line ∧
            l.line n = .ok line) ∧
        (¬ (1 ≤ n ∧ n ≤ source.toList.count '\n' + 1) →
          l.line n = .error ⟨l.closedLines.length, n⟩) := by
  have cuts := Segment.cuts_cut source.toList
  obtain ⟨m, endings, once⟩ := endings_of_tokenize source
  have text := source_of_tokenize source
  refine ⟨(Lexer.ofSource source).tokenize.2, _, _, rfl, cuts, ?_, fun n => ⟨fun inside => ?_,
    fun outside => ?_⟩⟩
  · rcases cuts.left_cases with closed | ⟨body, unclosed, never⟩
    · left
      rw [closed] at cuts
      obtain ⟨ts, read, places, last⟩ := standsAt_of_closed cuts
      exact ⟨ts, read, closed, tokens_of_tokenize read, places, last⟩
    · right
      rw [unclosed] at cuts ⊢
      obtain ⟨e, stopped, places, quote⟩ := standsAt_of_unclosed cuts
      exact ⟨e, body, stopped, rfl, places, quote⟩
  · rw [← text] at inside ⊢
    exact Lexer.exists_line_eq_ok (by rw [endings]; rfl) inside
  · exact Lexer.line_eq_error endings once (by rwa [text])

end Lisplet
