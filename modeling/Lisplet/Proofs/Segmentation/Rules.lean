import Lisplet.Segment

/-!
# The rules by which a text is cut

`Segment.Begins cs s rest` says, class by class, that the text `cs` begins with the segment `s` and
goes on with `rest`.  The rules mention nothing but the text: a word or a number is as long as it
can be, a comment or a string ends at the first place where it can.  For each class whose end has to
be searched for, the text is shown to be split where the rule says (`splitAfterMark_cases`,
`splitAfterQuote_cases`, `splitNumber_cases`).
-/

namespace Lisplet

/-! ### Longest runs -/

/-- The characters of `run` are of a class, and `rest` does not go on with one. -/
def LongestRun (p : Char → Bool) (run rest : List Char) : Prop :=
  (∀ c ∈ run, p c = true) ∧ ∀ c ∈ rest.head?, p c = false

section LongestRun

variable {p : Char → Bool} {run rest : List Char}

theorem longestRun_takeWhile (p : Char → Bool) (cs : List Char) :
    LongestRun p (cs.takeWhile p) (cs.dropWhile p) := by
  refine ⟨fun c hc => List.all_eq_true.1 List.all_takeWhile c hc, fun c hc => ?_⟩
  cases hd : cs.dropWhile p with
  | nil => simp [hd] at hc
  | cons d ds =>
    obtain rfl : d = c := by simpa [hd] using hc
    have := List.head_dropWhile_not p (l := cs) (by simp [hd])
    simpa [hd] using this

theorem LongestRun.takeWhile_append (h : LongestRun p run rest) :
    (run ++ rest).takeWhile p = run := by
  rw [List.takeWhile_append_of_pos h.1]
  cases rest with
  | nil => simp
  | cons c cs => simp [h.2 c rfl]

theorem LongestRun.dropWhile_append (h : LongestRun p run rest) :
    (run ++ rest).dropWhile p = rest := by
  rw [List.dropWhile_append_of_pos h.1]
  cases rest with
  | nil => rfl
  | cons c cs => simp [h.2 c rfl]

end LongestRun

namespace Segment

/-! ### The rules -/

/-- The characters that are tokens by themselves. -/
def singles : List (Char × Kind) :=
  [('(', .lparen), (')', .rparen), ('[', .lbracket), (']', .rbracket), ('+', .plus),
   ('-', .minus), ('*', .star), ('%', .percent)]

/-- The operators that may have a second character: both characters, the kind of the pair, and the
kind of the first alone. -/
def pairs : List (Char × Char × Kind × Kind) :=
  [('>', '=', .greaterEqual, .greater), ('<', '=', .lessEqual, .less),
   ('/', '/', .doubleSlash, .slash)]

/-- Somewhere in a text the comment mark is doubled. -/
def HasMark (cs : List Char) : Prop := [commentMark, commentMark] <:+: cs

/-- A text goes on with a point and a digit. -/
def GoesOnWithFraction (cs : List Char) : Prop :=
  ∃ d ds, cs = '.' :: d :: ds ∧ d.isDigit = true

/-- The characters that no other segment begins with, unless it is the comment mark. -/
def IsOther (c : Char) : Prop :=
  isLayout c = false ∧ c ≠ ';' ∧ c ≠ '"' ∧ (∀ k, (c, k) ∉ singles) ∧
    (∀ d pair alone, (c, d, pair, alone) ∉ pairs) ∧ c.isDigit = false ∧ isWordStart c = false

/-- The text begins with the segment and goes on with the rest. -/
inductive Begins : List Char → Segment → List Char → Prop where
  | blank {c : Char} {rest : List Char} (layout : c ∈ [' ', '\t', '\r', '\n']) :
      Begins (c :: rest) (blank c) rest
  | lineComment {body rest : List Char} (run : LongestRun (· != '\n') body rest) :
      Begins (';' :: (body ++ rest)) (comment (';' :: body)) rest
  /-- No doubled mark comes before the one that closes the comment. -/
  | blockComment {body rest : List Char} (first : ¬ HasMark (body ++ [commentMark])) :
      Begins (commentMark :: commentMark :: (body ++ commentMark :: commentMark :: rest))
        (comment (commentMark :: commentMark :: (body ++ [commentMark, commentMark]))) rest
  | openComment {body : List Char} (unclosed : ¬ HasMark body) :
      Begins (commentMark :: commentMark :: body) (comment (commentMark :: commentMark :: body)) []
  | string {content rest : List Char} (first : '"' ∉ content) :
      Begins ('"' :: (content ++ '"' :: rest)) (lexeme .string ('"' :: (content ++ ['"']))) rest
  | single {c : Char} {k : Kind} {rest : List Char} (mem : (c, k) ∈ singles) :
      Begins (c :: rest) (lexeme k [c]) rest
  | pair {c d : Char} {pair alone : Kind} {rest : List Char} (mem : (c, d, pair, alone) ∈ pairs) :
      Begins (c :: d :: rest) (lexeme pair [c, d]) rest
  | alone {c d : Char} {pair alone : Kind} {rest : List Char} (mem : (c, d, pair, alone) ∈ pairs)
      (single : rest.head? ≠ some d) : Begins (c :: rest) (lexeme alone [c]) rest
  | integer {whole rest : List Char} (ne : whole ≠ []) (run : LongestRun Char.isDigit whole rest)
      (ends : ¬ GoesOnWithFraction rest) : Begins (whole ++ rest) (lexeme .number whole) rest
  | decimal {whole fraction rest : List Char} (ne : whole ≠ [])
      (digits : ∀ c ∈ whole, c.isDigit = true) (ne' : fraction ≠ [])
      (run : LongestRun Char.isDigit fraction rest) :
      Begins (whole ++ '.' :: (fraction ++ rest)) (lexeme .number (whole ++ '.' :: fraction)) rest
  | keyword {c : Char} {part rest : List Char} {k : Kind} (start : isWordStart c = true)
      (run : LongestRun isWordPart part rest)
      (mem : (String.ofList (c :: part), k) ∈ Kind.keywords) :
      Begins (c :: (part ++ rest)) (lexeme k (c :: part)) rest
  | identifier {c : Char} {part rest : List Char} (start : isWordStart c = true)
      (run : LongestRun isWordPart part rest)
      (noKeyword : ∀ k, (String.ofList (c :: part), k) ∉ Kind.keywords) :
      Begins (c :: (part ++ rest)) (lexeme .identifier (c :: part)) rest
  | other {c : Char} {rest : List Char} (other : IsOther c)
      (single : c = commentMark → rest.head? ≠ some commentMark) :
      Begins (c :: rest) (lexeme .unidentified [c]) rest

/-! ### Comments -/

theorem hasMark_cons_cons {c d : Char} {cs : List Char} :
    HasMark (c :: d :: cs) ↔ (c = commentMark ∧ d = commentMark) ∨ HasMark (d :: cs) := by
  simp [HasMark, List.infix_cons_iff, eq_comm]

theorem not_hasMark_singleton (c : Char) : ¬ HasMark [c] := by
  intro h
  have := h.length_le
  simp at this

/-- A text is split after its first doubled mark, or nowhere. -/
theorem splitAfterMark_cases (cs : List Char) :
    (∃ body rest, cs = body ++ commentMark :: commentMark :: rest ∧
      ¬ HasMark (body ++ [commentMark]) ∧
        splitAfterMark cs = (body ++ [commentMark, commentMark], rest)) ∨
    (¬ HasMark cs ∧ splitAfterMark cs = (cs, [])) := by
  fun_induction splitAfterMark cs with
  | case1 c d cs h =>
    obtain ⟨rfl, rfl⟩ := h
    exact .inl ⟨[], cs, rfl, not_hasMark_singleton _, rfl⟩
  | case2 c d cs h split ih =>
    -- No mark is doubled at `c`, so the first doubled mark is that of what follows.
    rcases ih with ⟨body, rest, hcs, first, hs⟩ | ⟨none, hs⟩
    · refine .inl ⟨c :: body, rest, by rw [hcs]; rfl, ?_, by simp [split, hs]⟩
      cases body with
      | nil =>
        obtain ⟨rfl, -⟩ := List.cons.inj hcs
        simpa [hasMark_cons_cons, not_hasMark_singleton] using h
      | cons b body =>
        obtain ⟨rfl, -⟩ := List.cons.inj hcs
        simpa [hasMark_cons_cons, h] using first
    · exact .inr ⟨by simpa [hasMark_cons_cons, h] using none, by simp [split, hs]⟩
  | case3 cs h =>
    refine .inr ⟨?_, rfl⟩
    cases cs with
    | nil => simp [HasMark]
    | cons c cs =>
      cases cs with
      | nil => exact not_hasMark_singleton c
      | cons d cs => exact absurd rfl (h c d cs)

theorem splitAfterMark_of_first {body rest : List Char}
    (first : ¬ HasMark (body ++ [commentMark])) :
    splitAfterMark (body ++ commentMark :: commentMark :: rest) =
      (body ++ [commentMark, commentMark], rest) := by
  induction body with
  | nil => simp [splitAfterMark]
  | cons c body ih =>
    cases body with
    | nil =>
      have hc : c ≠ commentMark := by
        simpa [hasMark_cons_cons, not_hasMark_singleton] using first
      simp [splitAfterMark, hc]
    | cons d body =>
      rw [List.cons_append, List.cons_append, hasMark_cons_cons, not_or] at first
      simp only [List.cons_append] at ih ⊢
      rw [splitAfterMark, if_neg first.1, ih first.2]

theorem splitAfterMark_of_not_hasMark {cs : List Char} (h : ¬ HasMark cs) :
    splitAfterMark cs = (cs, []) := by
  rcases splitAfterMark_cases cs with ⟨body, rest, rfl, -⟩ | ⟨-, hs⟩
  · exact absurd ⟨body, rest, by simp⟩ h
  · exact hs

/-! ### Strings, numbers and words -/

theorem splitAfterQuote_of_first {content rest : List Char} (first : '"' ∉ content) :
    splitAfterQuote (content ++ '"' :: rest) = some (content ++ ['"'], rest) := by
  have run : LongestRun (· != '"') content ('"' :: rest) := by
    refine ⟨fun c hc => ?_, by simp⟩
    have : c ≠ '"' := fun h => first (h ▸ hc)
    simpa using this
  simp [splitAfterQuote, run.takeWhile_append, run.dropWhile_append]

theorem splitAfterQuote_cases (cs : List Char) :
    (∃ content rest, cs = content ++ '"' :: rest ∧ '"' ∉ content ∧
      splitAfterQuote cs = some (content ++ ['"'], rest)) ∨
    ('"' ∉ cs ∧ splitAfterQuote cs = none) := by
  by_cases h : '"' ∈ cs
  · obtain ⟨content, rest, rfl, first⟩ := List.eq_append_cons_of_mem h
    exact .inl ⟨content, rest, rfl, first, splitAfterQuote_of_first first⟩
  · have run : LongestRun (· != '"') cs [] := by
      refine ⟨fun c hc => ?_, by simp⟩
      have : c ≠ '"' := fun e => h (e ▸ hc)
      simpa using this
    have none : cs.dropWhile (· != '"') = [] := by simpa using run.dropWhile_append
    exact .inr ⟨h, by simp [splitAfterQuote, none]⟩

theorem splitNumber_of_integer {whole rest : List Char} (run : LongestRun Char.isDigit whole rest)
    (ends : ¬ GoesOnWithFraction rest) : splitNumber (whole ++ rest) = (whole, rest) := by
  simp only [splitNumber, run.takeWhile_append, run.dropWhile_append]
  split
  · rename_i point d ds
    rw [if_neg]
    rintro ⟨rfl, hd⟩
    exact ends ⟨d, ds, rfl, hd⟩
  · rfl

theorem splitNumber_of_decimal {whole fraction rest : List Char}
    (digits : ∀ c ∈ whole, c.isDigit = true) (ne : fraction ≠ [])
    (run : LongestRun Char.isDigit fraction rest) :
    splitNumber (whole ++ '.' :: (fraction ++ rest)) = (whole ++ '.' :: fraction, rest) := by
  have whole' : LongestRun Char.isDigit whole ('.' :: (fraction ++ rest)) :=
    ⟨digits, by simp⟩
  simp only [splitNumber, whole'.takeWhile_append, whole'.dropWhile_append]
  cases fraction with
  | nil => exact absurd rfl ne
  | cons d ds =>
    have run' : LongestRun Char.isDigit ds rest :=
      ⟨fun c hc => run.1 c (List.mem_cons_of_mem d hc), run.2⟩
    simp only [List.cons_append, run'.takeWhile_append, run'.dropWhile_append]
    simp [run.1 d List.mem_cons_self]

theorem splitNumber_cases (c : Char) (cs : List Char) (hc : c.isDigit = true) :
    (∃ whole rest, c :: cs = whole ++ rest ∧ whole ≠ [] ∧ LongestRun Char.isDigit whole rest ∧
      ¬ GoesOnWithFraction rest ∧ splitNumber (c :: cs) = (whole, rest)) ∨
    (∃ whole fraction rest, c :: cs = whole ++ '.' :: (fraction ++ rest) ∧ whole ≠ [] ∧
      (∀ c ∈ whole, c.isDigit = true) ∧ fraction ≠ [] ∧ LongestRun Char.isDigit fraction rest ∧
      splitNumber (c :: cs) = (whole ++ '.' :: fraction, rest)) := by
  have run := longestRun_takeWhile Char.isDigit (c :: cs)
  have text := List.takeWhile_append_dropWhile (p := Char.isDigit) (l := c :: cs)
  have ne : (c :: cs).takeWhile Char.isDigit ≠ [] := by simp [hc]
  by_cases ends : GoesOnWithFraction ((c :: cs).dropWhile Char.isDigit)
  · obtain ⟨d, ds, hd, digit⟩ := ends
    right
    have run' := longestRun_takeWhile Char.isDigit (d :: ds)
    have text' := List.takeWhile_append_dropWhile (p := Char.isDigit) (l := d :: ds)
    have ne' : (d :: ds).takeWhile Char.isDigit ≠ [] := by simp [digit]
    have split := splitNumber_of_decimal run.1 ne' run'
    rw [text', ← hd, text] at split
    rw [hd, ← text'] at text
    exact ⟨_, _, _, text.symm, ne, run.1, ne', run', split⟩
  · have split := splitNumber_of_integer run ends
    rw [text] at split
    exact .inl ⟨_, _, text.symm, ne, run, ends, split⟩

theorem ofWord_of_mem {s : String} {k : Kind} (h : (s, k) ∈ Kind.keywords) : Kind.ofWord s = k := by
  simp only [Kind.keywords, List.mem_cons, Prod.mk.injEq, List.not_mem_nil, or_false] at h
  rcases h with ⟨rfl, rfl⟩ | ⟨rfl, rfl⟩ | ⟨rfl, rfl⟩ | ⟨rfl, rfl⟩ | ⟨rfl, rfl⟩ | ⟨rfl, rfl⟩ |
    ⟨rfl, rfl⟩ | ⟨rfl, rfl⟩ | ⟨rfl, rfl⟩ | ⟨rfl, rfl⟩ | ⟨rfl, rfl⟩ | ⟨rfl, rfl⟩ | ⟨rfl, rfl⟩ |
    ⟨rfl, rfl⟩ | ⟨rfl, rfl⟩ | ⟨rfl, rfl⟩ <;> rfl

theorem ofWord_of_forall_not_mem {s : String} (h : ∀ k, (s, k) ∉ Kind.keywords) :
    Kind.ofWord s = .identifier := by
  have : Kind.keywords.lookup s = none := by
    rw [List.lookup_eq_none_iff]
    intro p hp
    have : s ≠ p.1 := by
      rintro rfl
      exact h p.2 hp
    simpa using this
  rw [Kind.ofWord, this]
  rfl

end Segment

end Lisplet
