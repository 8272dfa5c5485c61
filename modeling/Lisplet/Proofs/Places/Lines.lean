import Lisplet.Lexer

/-!
# Lines of tokens and lines that can be looked up

A token that was read from a text stands at a place of that text (`Segment.mem_tokens_iff`), so its
line is one of the lines of the text, and so is that of a quote that is never closed
(`Lexer.exists_isLine_of_mem_scan`, `Lexer.exists_isLine_of_unclosed`).  Once reading has begun,
each line of the text can be looked up, also where such a quote has stopped the reading
(`Lexer.line_eq_ok`).
-/

namespace Lisplet

namespace Place

theorem line_step (p : Place) (c : Char) :
    (p.step c).line = p.line + if c = '\n' then 1 else 0 := by
  unfold step
  split <;> rfl

theorem line_advance (p : Place) (cs : List Char) :
    (p.advance cs).line = p.line + cs.count '\n' := by
  induction cs generalizing p with
  | nil => rfl
  | cons c cs ih =>
    rw [advance_cons, ih, line_step, List.count_cons]
    simp only [beq_iff_eq]
    omega

end Place

namespace Segment

/-- The tokens of segments are those of the lexemes among them, each at the place where the segments
before it end. -/
theorem mem_tokens_iff {p : Place} {ss : List Segment} {t : Token} :
    t ∈ tokens p ss ↔ ∃ before k text after, ss = before ++ lexeme k text :: after ∧
      t = Token.placedAt (p.advance (before.map Segment.text).flatten) k (String.ofList text)
        (literal k text) := by
  induction ss generalizing p with
  | nil => simp [tokens]
  | cons s ss ih =>
    rw [tokens, List.mem_append, ih]
    constructor
    · rintro (ht | ⟨before, k, text, after, rfl, rfl⟩)
      · cases s with
        | blank c => simp [token?] at ht
        | comment text => simp [token?] at ht
        | lexeme k text => exact ⟨[], k, text, ss, rfl, by simpa [token?] using ht⟩
      · exact ⟨s :: before, k, text, after, rfl, by simp [Place.advance_append]⟩
    · rintro ⟨before, k, text, after, hss, rfl⟩
      cases before with
      | nil =>
        obtain ⟨rfl, rfl⟩ := List.cons.inj hss
        exact .inl (by simp [token?])
      | cons b before =>
        obtain ⟨rfl, rfl⟩ := List.cons.inj hss
        exact .inr ⟨before, k, text, after, rfl, by simp [Place.advance_append]⟩

end Segment

namespace Lexer

/-! ### Looking up lines -/

theorem lastLine_eq (l : Lexer) :
    (Text.lines l.source)[l.source.count '\n']? = some l.lastLine := by
  have ne := Text.lines_ne_nil l.source
  have length := Text.length_lines l.source
  rw [lastLine, List.getLastD_eq_getLast?, List.getLast?_eq_some_getLast ne, Option.getD_some,
    ← List.getLast?_eq_some_getLast ne, List.getLast?_eq_getElem?, length]
  rfl

/-- The text is the line of that number in the source; lines count from one. -/
def IsLine (l : Lexer) (n : Int) (text : List Char) : Prop :=
  ∃ i : Nat, n = i + 1 ∧ (Text.lines l.source)[i]? = some text

/-- Once reading has begun, each line of the text can be looked up by its number. -/
theorem line_eq_ok {l : Lexer} (begun : l.endings.isSome) {n : Int} {text : List Char}
    (h : l.IsLine n text) : l.line n = .ok text := by
  obtain ⟨i, rfl, h⟩ := h
  obtain ⟨m, hm⟩ := Option.isSome_iff_exists.1 begun
  have length := Text.length_lines l.source
  have closed : l.closedLines = (Text.lines l.source).dropLast ++ List.replicate m l.lastLine := by
    simp only [closedLines, hm]
  have lt : i < (Text.lines l.source).length := (List.getElem?_eq_some_iff.1 h).1
  have index : ((i : Int) + 1 - 1).toNat = i := by omega
  by_cases hi : i < l.source.count '\n'
  · -- The line was closed by its line feed.
    have inside : l.closedLines[i]? = some text := by
      rw [closed, List.getElem?_append_left (by simp [length, hi]), List.getElem?_dropLast, h,
        if_pos (by omega)]
    have : ¬ ((i : Int) + 1 = l.closedLines.length + 1 ∧ l.endings.getD 0 = 0) := by
      have := (List.getElem?_eq_some_iff.1 inside).1
      omega
    rw [line, if_neg this, if_pos (by omega), index, inside]
  · -- The last line is open until the end of the text has been reached.
    obtain rfl : i = l.source.count '\n' := by omega
    obtain rfl : l.lastLine = text := by simpa [l.lastLine_eq] using h
    cases m with
    | zero =>
      have count : l.closedLines.length = l.source.count '\n' := by simp [closed, length]
      rw [line, if_pos (by simp [count, hm]), openLine, if_pos begun]
    | succ m =>
      have inside : l.closedLines[l.source.count '\n']? = some l.lastLine := by
        rw [closed, List.getElem?_append_right (by simp [length])]
        simp [length]
      rw [line, if_neg (by simp [hm]), if_pos (by omega), index, inside]

/-! ### Lines of places and tokens -/

/-- The place behind the first part of a text stands on a line of the text. -/
theorem exists_isLine {l : Lexer} {before after : List Char} (h : l.source = before ++ after) :
    ∃ text, l.IsLine (Place.start.advance before).line text := by
  have lt : before.count '\n' < (Text.lines l.source).length := by
    rw [Text.length_lines, h, List.count_append]
    omega
  refine ⟨_, before.count '\n', ?_, List.getElem?_eq_getElem lt⟩
  rw [Place.line_advance]
  simp [Place.start, Int.add_comm]

/-- Each token of a text stands on one of its lines. -/
theorem exists_isLine_of_mem_scan {l : Lexer} {t : Token} (h : t ∈ (scan l.source).1) :
    ∃ text, l.IsLine t.line text := by
  obtain ⟨before, k, text, after, hss, rfl⟩ := Segment.mem_tokens_iff.1 h
  have source := Segment.flatten_cut l.source
  rw [hss, List.map_append, List.flatten_append, List.append_assoc] at source
  exact exists_isLine source.symm

theorem exists_isLine_of_eof (l : Lexer) : ∃ text, l.IsLine l.eof.line text :=
  exists_isLine (List.append_nil l.source).symm

/-- The quote that is never closed stands on one of the lines. -/
theorem exists_isLine_of_unclosed {l : Lexer} {e : UnclosedString}
    (h : (scan l.source).2 = some e) : ∃ text, l.IsLine e.token.line text := by
  have place : e.place =
      Place.start.advance ((Segment.cut l.source).1.map Segment.text).flatten := by
    simp only [scan] at h
    split at h
    · cases h
    · cases h
      rfl
  have := exists_isLine (Segment.flatten_cut l.source).symm
  rwa [← place] at this

end Lexer

end Lisplet
