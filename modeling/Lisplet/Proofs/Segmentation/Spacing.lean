import Lisplet.Proofs.Relocation.Layout
import Lisplet.Proofs.Segmentation.Cut

/-!
# Lexemes written down again

The lexemes of a source may be written down again with other text between them: a blank, and behind
it blanks and comments that end by themselves (`Segment.Separates`).  A lexeme is as long as it was
wherever a blank follows it (`Segment.Begins.before_blank`), and what separates the lexemes is cut
into segments without tokens (`Segment.Filler.exists_cuts`).  So the text has the tokens of the
source, but for their places (`tokenize_spaced`).
-/

namespace Lisplet

namespace Segment

/-! ### Text between lexemes -/

/-- Blanks and comments one after the other, each of which ends by itself. -/
inductive Filler : List Char → Prop where
  | nil : Filler []
  | blank {c : Char} {rest : List Char} (layout : c ∈ [' ', '\t', '\r', '\n'])
      (more : Filler rest) : Filler (c :: rest)
  | lineComment {body rest : List Char} (oneLine : '\n' ∉ body) (more : Filler rest) :
      Filler (';' :: (body ++ '\n' :: rest))
  | blockComment {body rest : List Char} (single : ¬ HasMark body)
      (ends : body.getLast? ≠ some commentMark) (more : Filler rest) :
      Filler (commentMark :: commentMark :: (body ++ commentMark :: commentMark :: rest))

/-- The text is a blank with filler behind it. -/
def Separates (text : String) : Prop :=
  ∃ c rest, text.toList = c :: rest ∧ c ∈ [' ', '\t', '\r', '\n'] ∧ Filler rest

/-- The text may stand before the first lexeme and behind the last one. -/
def IsMargin (text : String) : Prop := text = "" ∨ Separates text

/-- The text ends or goes on with a blank. -/
def BeforeBlank (rest : List Char) : Prop := ∀ c ∈ rest.head?, isLayout c = true

theorem Separates.filler {text : String} (h : Separates text) : Filler text.toList := by
  obtain ⟨c, rest, chars, layout, more⟩ := h
  rw [chars]
  exact .blank layout more

theorem Separates.beforeBlank {text : String} (h : Separates text) (rest : List Char) :
    BeforeBlank (text.toList ++ rest) := by
  obtain ⟨c, cs, chars, layout, -⟩ := h
  intro d hd
  rw [chars] at hd
  obtain rfl : c = d := by simpa using hd
  exact isLayout_iff.2 layout

theorem IsMargin.filler {text : String} (h : IsMargin text) : Filler text.toList := by
  rcases h with rfl | h
  · exact .nil
  · exact h.filler

theorem IsMargin.beforeBlank {text : String} (h : IsMargin text) : BeforeBlank text.toList := by
  rcases h with rfl | h
  · simp [BeforeBlank]
  · simpa using h.beforeBlank []

/-! ### Lexemes before a blank -/

section BeforeBlank

variable {p : Char → Bool} {run rest : List Char}

theorem BeforeBlank.head?_ne (h : BeforeBlank rest) {d : Char} (hd : isLayout d = false) :
    rest.head? ≠ some d := by
  intro head
  simp [h d head] at hd

/-- A run of a class without blanks is as long as it can be where a blank follows. -/
theorem BeforeBlank.longestRun (h : BeforeBlank rest)
    (hp : [' ', '\t', '\r', '\n'].all (fun d => !p d) = true) (each : ∀ c ∈ run, p c = true) :
    LongestRun p run rest := by
  refine ⟨each, fun c hc => ?_⟩
  simpa using List.all_eq_true.1 hp c (isLayout_iff.1 (h c hc))

theorem BeforeBlank.not_goesOnWithFraction (h : BeforeBlank rest) :
    ¬ GoesOnWithFraction rest := by
  rintro ⟨d, ds, rfl, -⟩
  exact absurd (h '.' rfl) (by decide)

end BeforeBlank

/-- A lexeme is cut from a text before a blank as it was cut from any other text. -/
theorem Begins.before_blank {cs text rest rest' : List Char} {k : Kind}
    (h : Begins cs (lexeme k text) rest) (blank : BeforeBlank rest') :
    Begins (text ++ rest') (lexeme k text) rest' := by
  cases h with
  | @string content _ first =>
    have := @Begins.string content rest' first
    simpa using this
  | single mem => exact .single mem
  | pair mem => exact .pair mem
  | alone mem =>
    refine .alone mem (blank.head?_ne ?_)
    have : ∀ p ∈ pairs, isLayout p.2.1 = false := by decide
    exact this _ mem
  | integer ne run =>
    exact .integer ne (blank.longestRun rfl run.1) blank.not_goesOnWithFraction
  | decimal ne digits ne' run =>
    have := Begins.decimal ne digits ne' (blank.longestRun rfl run.1)
    simpa using this
  | keyword start run mem => exact .keyword start (blank.longestRun rfl run.1) mem
  | identifier start run noKeyword =>
    exact .identifier start (blank.longestRun rfl run.1) noKeyword
  | other other => exact .other other fun _ => blank.head?_ne rfl

/-! ### Contents -/

/-- What the token of a segment is but for its place; blanks and comments have none. -/
def content? : Segment → Option (Kind × String × Value)
  | lexeme kind text => some (kind, String.ofList text, literal kind text)
  | _ => none

/-- The contents of consecutive segments. -/
def contents (ss : List Segment) : List (Kind × String × Value) := ss.filterMap content?

theorem map_content_tokens (p : Place) (ss : List Segment) :
    (tokens p ss).map Token.content = contents ss := by
  induction ss generalizing p with
  | nil => rfl
  | cons s ss ih =>
    rw [tokens, List.map_append, ih]
    cases s <;> rfl

/-! ### Cuts of spaced lexemes -/

theorem not_hasMark_append_mark {body : List Char} (single : ¬ HasMark body)
    (ends : body.getLast? ≠ some commentMark) : ¬ HasMark (body ++ [commentMark]) := by
  intro mark
  rcases List.infix_concat_iff.1 mark with suffix | inside
  · -- The doubled mark would end with the one behind the body, and begin with the last of the body.
    obtain ⟨before, h⟩ := suffix
    have body_eq : before ++ [commentMark] = body := by
      have : (before ++ [commentMark]) ++ [commentMark] = body ++ [commentMark] := by simpa using h
      exact List.append_cancel_right this
    exact ends (by simp [← body_eq])
  · exact single inside

/-- Filler adds nothing to the contents of what stands behind it. -/
theorem Filler.exists_cuts {cs rest left : List Char} {ss : List Segment} (h : Filler cs)
    (cuts : Cuts rest ss left) :
    ∃ ss', Cuts (cs ++ rest) ss' left ∧ contents ss' = contents ss := by
  induction h with
  | nil => exact ⟨ss, cuts, rfl⟩
  | blank layout _ ih =>
    obtain ⟨ss', more, same⟩ := ih
    exact ⟨_, .cons (.blank layout) more, same⟩
  | @lineComment body cs oneLine _ ih =>
    obtain ⟨ss', more, same⟩ := ih
    have run : LongestRun (· != '\n') body ('\n' :: (cs ++ rest)) := by
      refine ⟨fun c hc => ?_, by simp⟩
      have : c ≠ '\n' := fun e => oneLine (e ▸ hc)
      simpa using this
    have line := Cuts.cons (.lineComment run) (.cons (.blank (by simp)) more)
    rw [List.cons_append, List.append_assoc, List.cons_append]
    exact ⟨_, line, same⟩
  | @blockComment body cs single ends _ ih =>
    obtain ⟨ss', more, same⟩ := ih
    have block := Cuts.cons (.blockComment (not_hasMark_append_mark single ends)) more
    rw [List.cons_append, List.cons_append, List.append_assoc, List.cons_append, List.cons_append]
    exact ⟨_, block, same⟩

end Segment

/-- A text made of lexemes: what stands before them, and each lexeme with what stands behind it. -/
def spaced (before : String) (parts : List (String × String)) : String :=
  before ++ String.join (parts.map fun x => x.1 ++ x.2)

theorem toList_spaced (before : String) (parts : List (String × String)) :
    (spaced before parts).toList = before.toList ++ (spaced "" parts).toList := by
  simp [spaced]

theorem toList_spaced_cons (x : String × String) (parts : List (String × String)) :
    (spaced "" (x :: parts)).toList =
      x.1.toList ++ (x.2.toList ++ (spaced "" parts).toList) := by
  simp [spaced, String.join_cons]

namespace Segment

/-- What stands behind the lexemes: a separator behind each of them but the last. -/
structure Spacing (parts : List (String × String)) : Prop where
  inner : ∀ x ∈ parts.dropLast, Separates x.2
  last : ∀ x ∈ parts.getLast?, IsMargin x.2

namespace Spacing

variable {word gap : String} {parts : List (String × String)}

theorem behind (h : Spacing ((word, gap) :: parts)) :
    Filler gap.toList ∧ BeforeBlank (gap.toList ++ (spaced "" parts).toList) := by
  cases parts with
  | nil =>
    have margin : IsMargin gap := h.last _ rfl
    exact ⟨margin.filler, by simpa [spaced] using margin.beforeBlank⟩
  | cons x parts =>
    have separates : Separates gap := h.inner _ List.mem_cons_self
    exact ⟨separates.filler, separates.beforeBlank _⟩

theorem tail (h : Spacing ((word, gap) :: parts)) : Spacing parts := by
  cases parts with
  | nil => exact ⟨by simp, by simp⟩
  | cons x parts => exact ⟨fun y hy => h.inner y (List.mem_cons_of_mem _ hy), h.last⟩

end Spacing

/-- Lexemes with separators between them are cut into segments of the same contents. -/
theorem exists_cuts_spaced {ss : List Segment} {parts : List (String × String)}
    (each : ∀ s ∈ ss, ∃ cs rest, Begins cs s rest)
    (lexemes : parts.map Prod.fst = (contents ss).map fun content => content.2.1)
    (spacing : Spacing parts) :
    ∃ ss', Cuts (spaced "" parts).toList ss' [] ∧ contents ss' = contents ss := by
  induction ss generalizing parts with
  | nil =>
    obtain rfl : parts = [] := by simpa [contents] using lexemes
    exact ⟨[], .nil, rfl⟩
  | cons s ss ih =>
    obtain ⟨⟨cs, rest, begins⟩, others⟩ := List.forall_mem_cons.1 each
    cases s with
    -- Only lexemes are written down again.
    | blank c => exact ih others lexemes spacing
    | comment text => exact ih others lexemes spacing
    | lexeme k text =>
      have first : content? (lexeme k text) = some (k, String.ofList text, literal k text) := rfl
      rw [contents, List.filterMap_cons_some first] at lexemes ⊢
      match parts with
      | [] => cases lexemes
      | (word, gap) :: parts =>
        obtain ⟨rfl, words⟩ := List.cons.inj lexemes
        obtain ⟨filler, blank⟩ := spacing.behind
        obtain ⟨ss', more, same⟩ := ih others words spacing.tail
        obtain ⟨ss', cuts, same'⟩ := filler.exists_cuts more
        refine ⟨lexeme k text :: ss', ?_, ?_⟩
        · rw [toList_spaced_cons, String.toList_ofList]
          exact .cons (begins.before_blank blank) cuts
        · rw [contents, List.filterMap_cons_some first]
          exact congrArg _ (same'.trans same)

end Segment

/-- **Lexemes written down again are read again.**  Take the lexemes of any source that can be
read, in their order, with any separators between them, and before and behind them separators or
nothing.  Then the text can be read, and its tokens are of the same kinds, lexemes and literals as
those of the source, up to the one that ends the text. -/
theorem tokenize_spaced {source : String} {ts : Tokens} (read : tokenize source = .ok ts)
    {before : String} {parts : List (String × String)}
    (lexemes : parts.map Prod.fst = ts.ahead.map Token.lexeme) (first : Segment.IsMargin before)
    (spacing : Segment.Spacing parts) :
    ∃ ts', tokenize (spaced before parts) = .ok ts' ∧ ts.SameContent ts' := by
  obtain ⟨ss, cuts, ahead, end_⟩ := exists_cuts_of_tokenize read
  have lexemes : parts.map Prod.fst =
      (Segment.contents ss).map fun content => content.2.1 := by
    rw [lexemes, ahead, ← Segment.map_content_tokens .start, List.map_map]
    rfl
  obtain ⟨ss', more, same⟩ :=
    Segment.exists_cuts_spaced (fun s mem => cuts.begins_of_mem mem) lexemes spacing
  obtain ⟨ss', cuts', same'⟩ := first.filler.exists_cuts more
  rw [← toList_spaced] at cuts'
  refine ⟨_, tokenize_of_closed cuts', ?_⟩
  simp only [Tokens.SameContent, Tokens.toList, List.map_append, ahead,
    Segment.map_content_tokens, same', same, end_]
  rfl

open Segment in
/-- A name and a string of two comment marks, without a gap and with a comment between them: what
stands in the string is no comment, and what stands in the comment is no string. -/
theorem tokenize_spaced_name_string :
    ∃ ts ts', tokenize "a\"\x60\x60\"" = .ok ts ∧
      tokenize "a\t\x60\x60\"\x60\x60\"\x60\x60\" ;\n" = .ok ts' ∧ ts.SameContent ts' := by
  have cuts : Cuts ['a', '"', commentMark, commentMark, '"'] [lexeme .identifier ['a'],
      lexeme .string ['"', commentMark, commentMark, '"']] [] :=
    .of_next rfl (.of_next rfl .nil)
  rw [show ['a', '"', commentMark, commentMark, '"'] = "a\"\x60\x60\"".toList from rfl] at cuts
  have gap : Separates "\t\x60\x60\"\x60\x60" :=
    ⟨'\t', [commentMark, commentMark, '"', commentMark, commentMark], rfl, by simp,
      .blockComment (not_hasMark_singleton '"') (by decide) .nil⟩
  have line : Filler [';', '\n'] := @Filler.lineComment [] [] (by simp) .nil
  have behind : IsMargin " ;\n" := .inr ⟨' ', [';', '\n'], rfl, by simp, line⟩
  have spacing : Spacing
      [("a", "\t\x60\x60\"\x60\x60"), ("\"\x60\x60\"", " ;\n")] :=
    ⟨by simpa using gap, by simpa using behind⟩
  obtain ⟨ts', read, same⟩ :=
    @tokenize_spaced _ _ (tokenize_of_closed cuts) "" _ rfl (.inl rfl) spacing
  exact ⟨_, ts', tokenize_of_closed cuts, read, same⟩

end Lisplet
