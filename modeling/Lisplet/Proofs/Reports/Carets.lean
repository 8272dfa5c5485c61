import Lisplet.Proofs.Places.Positions
import Lisplet.Proofs.Sessions.Outcome

/-!
# Carets under the lexeme

A report quotes the line of a token without the blanks at its ends and marks the token with carets
in a line of its own.  A lexeme that is not blank itself neither begins nor ends with a blank
(`Segment.Begins.showsEnds`), so nothing of it is trimmed (`Text.trim_of_showsEnds`), and the carets
stand just under the lexeme in the quoted copy (`diagnose_carets`).  This holds for lexemes on one
line, wherever that line begins and whatever blanks stand on it.
-/

namespace Lisplet

namespace Text

/-! ### Trimming around a visible text -/

/-- The text begins and ends with characters that are not blank. -/
structure ShowsEnds (text : List Char) : Prop where
  first : ∃ c ∈ text.head?, isBlank c = false
  last : ∃ c ∈ text.getLast?, isBlank c = false

theorem ShowsEnds.singleton {c : Char} (h : isBlank c = false) : ShowsEnds [c] :=
  ⟨⟨c, rfl, h⟩, ⟨c, rfl, h⟩⟩

theorem ShowsEnds.ne_nil {text : List Char} (h : ShowsEnds text) : text ≠ [] := by
  rintro rfl
  obtain ⟨c, first, -⟩ := h.first
  cases first

/-- A text of visible characters shows its ends. -/
theorem ShowsEnds.of_forall {text : List Char} (ne : text ≠ [])
    (h : ∀ c ∈ text, isBlank c = false) : ShowsEnds text :=
  ⟨⟨_, List.head?_eq_some_head ne, h _ (List.head_mem ne)⟩,
    ⟨_, List.getLast?_eq_some_getLast ne, h _ (List.getLast_mem ne)⟩⟩

theorem isBlank_eq_false_of_ascii {c : Char} (low : 0x20 < c.toNat) (high : c.toNat < 0x85) :
    isBlank c = false := by
  simp only [isBlank, blankRanges, Ranges.contains]
  simp
  omega

theorem trimRight_append {front : List Char} {c : Char} (visible : isBlank c = false)
    (back : List Char) : trimRight (front ++ c :: back) = front ++ c :: trimRight back := by
  have reversed : (front ++ c :: back).reverse = back.reverse ++ c :: front.reverse := by simp
  rw [trimRight, reversed, List.dropWhile_append]
  split
  · rename_i all
    have all : List.dropWhile isBlank back.reverse = [] := by simpa using all
    simp [trimRight, all, visible]
  · simp [trimRight]

theorem margin_append_le (front : List Char) {c : Char} (visible : isBlank c = false)
    (back : List Char) : margin (front ++ c :: back) ≤ front.length := by
  rw [margin, List.takeWhile_append]
  split
  · simp [visible]
  · exact (List.takeWhile_prefix _).length_le

theorem trimLeft_eq_drop (cs : List Char) : trimLeft cs = cs.drop (margin cs) :=
  calc trimLeft cs = (cs.takeWhile isBlank ++ cs.dropWhile isBlank).drop (margin cs) :=
        List.drop_left.symm
    _ = cs.drop (margin cs) := by rw [List.takeWhile_append_dropWhile]

theorem mem_of_mem_trim {c : Char} {cs : List Char} (h : c ∈ trim cs) : c ∈ cs := by
  rw [trim, trimRight, List.mem_reverse] at h
  have mem := (List.dropWhile_suffix _).mem h
  rw [List.mem_reverse] at mem
  exact (List.dropWhile_suffix _).mem mem

/-- Around a text that shows its ends, only blanks before and behind it are trimmed. -/
theorem trim_of_showsEnds (front : List Char) {text : List Char} (h : ShowsEnds text)
    (back : List Char) :
    margin (front ++ (text ++ back)) ≤ front.length ∧
      trim (front ++ (text ++ back)) =
        front.drop (margin (front ++ (text ++ back))) ++ (text ++ trimRight back) := by
  obtain ⟨⟨c, first, visible⟩, ⟨d, last, visible'⟩⟩ := h
  obtain ⟨tail, rfl⟩ := List.head?_eq_some_iff.1 first
  obtain ⟨init, ends⟩ := List.getLast?_eq_some_iff.1 last
  have le := margin_append_le front visible (tail ++ back)
  refine ⟨le, ?_⟩
  rw [trim, trimLeft_eq_drop, List.drop_append_of_le_length (by exact le)]
  generalize margin (front ++ (c :: tail ++ back)) = m
  rw [ends, List.append_assoc, ← List.append_assoc, List.singleton_append,
    trimRight_append visible']
  simp

end Text

/-! ### Lexemes -/

namespace Segment

theorem isBlank_eq_false_of_isWordPart {c : Char} (h : isWordPart c = true) :
    Text.isBlank c = false := by
  have bounds : 0x20 < c.toNat ∧ c.toNat < 0x85 := by
    simp only [isWordPart, isWordStart, isAlpha_eq, Char.isDigit, Bool.or_eq_true,
      Bool.and_eq_true, decide_eq_true_eq, beq_iff_eq, ge_iff_le, UInt32.le_iff_toNat_le] at h
    rcases h with (((((h | h) | rfl) | rfl) | h) | rfl) | rfl
    any_goals decide
    all_goals exact ⟨Nat.lt_of_lt_of_le (by decide) h.1, Nat.lt_of_le_of_lt h.2 (by decide)⟩
  exact Text.isBlank_eq_false_of_ascii bounds.1 bounds.2

/-- Every lexeme begins and ends with characters that are not blank, unless it is a blank character
that belongs to nothing. -/
theorem Begins.showsEnds {cs rest text : List Char} {k : Kind} (h : Begins cs (lexeme k text) rest)
    (visible : k = .unidentified → ∀ c, text = [c] → Text.isBlank c = false) :
    Text.ShowsEnds text := by
  have digit : ∀ c : Char, c.isDigit = true → Text.isBlank c = false := fun c hc =>
    isBlank_eq_false_of_isWordPart (by simp [isWordPart, hc])
  have word {c : Char} {part : List Char} (start : isWordStart c = true)
      (others : ∀ d ∈ part, isWordPart d = true) : Text.ShowsEnds (c :: part) := by
    refine .of_forall (by simp) fun d hd => isBlank_eq_false_of_isWordPart ?_
    rcases List.mem_cons.1 hd with rfl | hd
    · simp [isWordPart, start]
    · exact others d hd
  cases h with
  | string => exact ⟨⟨'"', rfl, rfl⟩, ⟨'"', by simp [List.getLast?_cons], rfl⟩⟩
  | single mem =>
    have : ∀ p ∈ singles, Text.isBlank p.1 = false := by decide
    exact .singleton (this _ mem)
  | pair mem =>
    have : ∀ p ∈ pairs, Text.isBlank p.1 = false ∧ Text.isBlank p.2.1 = false := by decide
    exact ⟨⟨_, rfl, (this _ mem).1⟩, ⟨_, rfl, (this _ mem).2⟩⟩
  | alone mem =>
    have : ∀ p ∈ pairs, Text.isBlank p.1 = false := by decide
    exact .singleton (this _ mem)
  | integer ne run => exact .of_forall ne fun c hc => digit c (run.1 c hc)
  | @decimal whole fraction _ ne digits ne' run =>
    obtain ⟨first, -⟩ := Text.ShowsEnds.of_forall ne fun c hc => digit c (digits c hc)
    obtain ⟨-, last⟩ := Text.ShowsEnds.of_forall ne' fun c hc => digit c (run.1 c hc)
    exact ⟨by rwa [List.head?_append_of_ne_nil _ ne],
      by rwa [List.getLast?_append_of_ne_nil _ (by simp), List.getLast?_cons_of_ne_nil ne']⟩
  | keyword start run | identifier start run => exact word start run.1
  | other => exact .singleton (visible rfl _ rfl)

end Segment

namespace Lexer

/-- A lexeme without a line feed stands on one line of the text, as far from its beginning as the
column of the token says. -/
theorem exists_isLine_around {l : Lexer} {u text rest : List Char}
    (h : l.source = u ++ (text ++ rest)) (oneLine : '\n' ∉ text) (k : Kind) (v : Value) :
    let t := Token.placedAt (Place.start.advance u) k (String.ofList text) v
    ∃ front back, l.IsLine t.line (front ++ (text ++ back)) ∧ t.column = front.length + 1 := by
  intro t
  obtain ⟨before, front, back, after, rfl, rfl, line⟩ := Text.exists_isLineBetween u rest
  have within : '\n' ∉ front := fun mem => line.within (List.mem_append_left back mem)
  have whole : Text.IsLineBetween before (front ++ (text ++ back)) after :=
    ⟨line.begins, by simpa [oneLine] using line.within, line.ends⟩
  have count : (before ++ front).count '\n' = before.count '\n' := by
    rw [List.count_append, List.count_eq_zero.2 within, Nat.add_zero]
  refine ⟨front, back, ⟨before.count '\n', ?_, ?_⟩, ?_⟩
  · simp only [t, Token.placedAt, Place.line_advance, count, Place.start]
    omega
  · have text : l.source = before ++ (front ++ (text ++ back)) ++ after := by simp [h]
    rw [text]
    exact whole.getElem?_lines
  · have column := Place.column_advance_start line.begins within
    simp [t, Token.placedAt, column]

theorem IsLine.not_mem {l : Lexer} {n : Int} {line : List Char} (h : l.IsLine n line) :
    '\n' ∉ line := by
  obtain ⟨i, -, piece⟩ := h
  exact Text.not_mem_of_mem_lines (List.mem_of_getElem? piece)

end Lexer

/-- The token was read from the source, or it is the quote that opens a string that is never closed.
-/
def Token.IsReadFrom (source : String) (t : Token) : Prop :=
  t ∈ (readOf source).tokens ∨ ∃ e, tokenize source = .error e ∧ t = e.token

/-- A token that was read, but for the one that ends the text, is placed where its lexeme stands in
the source, and its lexeme shows its ends. -/
theorem Token.IsReadFrom.exists_lexeme {source : String} {t : Token} (h : t.IsReadFrom source)
    (notEnd : t.kind ≠ .eof)
    (visible : t.kind = .unidentified → ∀ c, t.lexeme.toList = [c] → Text.isBlank c = false) :
    ∃ u text rest v, source.toList = u ++ (text ++ rest) ∧ Text.ShowsEnds text ∧
      t = Token.placedAt (Place.start.advance u) t.kind (String.ofList text) v := by
  have cuts := Segment.cuts_cut source.toList
  rcases h with mem | ⟨e, stopped, rfl⟩
  · have mem : t ∈ (scan source.toList).1 := by
      obtain ⟨m, endings⟩ := Option.isSome_iff_exists.1 (begun_readOf source)
      simp only [Lexer.tokens, endings, source_readOf, List.mem_append, List.mem_replicate] at mem
      refine mem.resolve_right fun last => notEnd ?_
      rw [last.2]
      rfl
    obtain ⟨before, k, text, after, segments, rfl⟩ := Segment.mem_tokens_iff.1 mem
    have flat := cuts.flatten_append
    obtain ⟨cs, rest, begins⟩ := cuts.begins_of_mem
      (show Segment.lexeme k text ∈ (Segment.cut source.toList).1 by simp [segments])
    rw [segments, List.map_append, List.flatten_append, List.map_cons, List.flatten_cons,
      List.append_assoc, List.append_assoc] at flat
    exact ⟨_, text, _, _, flat.symm,
      begins.showsEnds fun unidentified c hc => visible unidentified c
        (by simpa [placedAt] using hc), rfl⟩
  · rcases cuts.left_cases with closed | ⟨body, unclosed, -⟩
    · rw [closed] at cuts
      rw [tokenize_of_closed cuts] at stopped
      cases stopped
    · rw [unclosed] at cuts
      rw [(tokenize_of_unclosed cuts).1] at stopped
      cases stopped
      exact ⟨_, ['"'], body, .null, cuts.flatten_append.symm, .singleton rfl, rfl⟩

/-- **The carets stand under the lexeme.**  Take any token that was read from a source, or the quote
that opens a string that is never closed, unless it ends the text or is a blank character that
belongs to nothing, and let its lexeme hold no line feed.  A report that is not styled quotes the
line of the token without the blanks at its ends, and marks it with as many carets as the lexeme has
characters.  The carets begin behind `k` spaces: one of them stands below the quotation mark, so the
lexeme begins with the character number `k` of what is quoted. -/
theorem diagnose_carets {source : String} {r : Reporter} {t : Token} (unstyled : r.styled = false)
    (registered : r.source = some (readOf source)) (read : t.IsReadFrom source)
    (notEnd : t.kind ≠ .eof)
    (visible : t.kind = .unidentified → ∀ c, t.lexeme.toList = [c] → Text.isBlank c = false)
    (oneLine : '\n' ∉ t.lexeme.toList) (severity : Severity) :
    ∃ (line : List Char) (k : Nat), (readOf source).IsLine t.line line ∧
      r.diagnose severity t = .ok ("\n\t\"" ++ String.ofList (Text.trim line) ++ "\"\n\t" ++
        String.ofList (List.replicate k ' ' ++ List.replicate t.lexeme.length '^')) ∧
      '\n' ∉ Text.trim line ∧ 1 ≤ k ∧ 1 ≤ t.lexeme.length ∧
      ((Text.trim line).drop (k - 1)).take t.lexeme.length = t.lexeme.toList := by
  obtain ⟨u, text, rest, v, chars, ends, placed⟩ := read.exists_lexeme notEnd visible
  have lexeme : t.lexeme.toList = text := by rw [placed]; simp [Token.placedAt]
  rw [lexeme] at oneLine
  have around := Lexer.exists_isLine_around (l := readOf source) (by rwa [source_readOf]) oneLine
    t.kind v
  rw [← placed] at around
  obtain ⟨front, back, isLine, column⟩ := around
  obtain ⟨le, trimmed⟩ := Text.trim_of_showsEnds front ends back
  have length : t.lexeme.length = text.length := by rw [← lexeme, String.length_toList]
  have pos : 1 ≤ text.length := List.length_pos_iff.2 ends.ne_nil
  refine ⟨_, front.length + 1 - Text.margin (front ++ (text ++ back)), isLine, ?_, ?_, by omega,
    by omega, ?_⟩
  · have marks : (t.column - (Text.margin (front ++ (text ++ back)) : Int)).toNat =
        front.length + 1 - Text.margin (front ++ (text ++ back)) := by omega
    simp only [Reporter.diagnose, registered, Lexer.line_eq_ok (begun_readOf source) isLine,
      Reporter.quote, Reporter.carets, Text.bold, unstyled, marks, length, Nat.max_eq_left pos]
    simp
  · have noFeed := isLine.not_mem
    exact fun mem => noFeed (Text.mem_of_mem_trim mem)
  · rw [trimmed, length, lexeme, Nat.sub_right_comm, Nat.add_sub_cancel]
    rw [← List.length_drop, List.drop_left, List.take_left]

open Segment in
/-- Behind a string that began on the line before, on a line that begins with a form feed: the feed
is trimmed, and the caret still stands under the name. -/
theorem diagnose_carets_behind_string :
    let source := "\"a\n\x0c\" x"
    let t : Token := ⟨.identifier, "x", .null, 2, 4⟩
    let r := (Reporter.new true false).register "f" (readOf source)
    t.IsReadFrom source ∧ r.diagnose .error t = .ok ("\n\t\"" ++ "\" x" ++ "\"\n\t" ++ "   ^") := by
  intro source t r
  have chars : source.toList = ['"', 'a', '\n', '\x0c', '"', ' ', 'x'] :=
    show "\"a\n\x0c\" x".toList = _ from rfl
  have cuts : Cuts source.toList [lexeme .string ['"', 'a', '\n', '\x0c', '"'], blank ' ',
      lexeme .identifier ['x']] [] := by
    rw [chars]
    exact .of_next rfl (.of_next rfl (.of_next rfl .nil))
  have read : t.IsReadFrom source := by
    left
    rw [readOf, tokens_of_tokenize (tokenize_of_closed cuts)]
    exact List.mem_cons_of_mem _ List.mem_cons_self
  obtain ⟨line, k, ⟨i, number, piece⟩, report, -, first, -, under⟩ :=
    diagnose_carets (r := r) rfl rfl read (by decide) (fun unidentified => by cases unidentified)
      (by decide) .error
  obtain rfl : i = 1 := by
    have number : (2 : Int) = i + 1 := number
    omega
  rw [source_readOf, chars] at piece
  obtain rfl : ['\x0c', '"', ' ', 'x'] = line := Option.some.inj piece
  have trimmed : Text.trim ['\x0c', '"', ' ', 'x'] = ['"', ' ', 'x'] := by decide
  have length : t.lexeme.length = 1 := by decide
  have lexeme : t.lexeme.toList = ['x'] := by decide
  rw [trimmed, length] at report under
  rw [lexeme] at under
  obtain rfl : k = 3 := by
    have inside := congrArg List.length under
    simp only [List.length_take, List.length_drop, List.length_cons, List.length_nil] at inside
    have place : k = 1 ∨ k = 2 ∨ k = 3 := by omega
    rcases place with rfl | rfl | rfl
    · simp at under
    · simp at under
    · rfl
  exact ⟨read, report⟩

end Lisplet
