import Lisplet.Lexer
import Lisplet.Proofs.Segmentation.Next

/-!
# The cut of a source text and its tokens

`Segment.Cuts cs ss left` says that the text `cs` is cut by the rules into the segments `ss`, and
that `left` is left over: nothing, or the text from a double quote on that is never closed.  Every
text has just one cut (`Segment.cuts_iff`).  Reading a source gives the tokens of its cut, in order,
and then the one that ends the text; it fails just when something is left over, and then the tokens
before the open quote have been read (`tokenize_cut`).
-/

namespace Lisplet

namespace Segment

/-! ### The cut -/

/-- The text is cut into the segments, and the last text is left over. -/
inductive Cuts : List Char → List Segment → List Char → Prop where
  | nil : Cuts [] [] []
  | unclosed {body : List Char} (never : '"' ∉ body) : Cuts ('"' :: body) [] ('"' :: body)
  | cons {cs rest left : List Char} {s : Segment} {ss : List Segment} (begins : Begins cs s rest)
      (more : Cuts rest ss left) : Cuts cs (s :: ss) left

theorem Cuts.of_next {c : Char} {cs rest left : List Char} {s : Segment} {ss : List Segment}
    (h : next c cs = some (s, rest)) (more : Cuts rest ss left) : Cuts (c :: cs) (s :: ss) left :=
  .cons (begins_of_next h) more

theorem cuts_cut (cs : List Char) : Cuts cs (cut cs).1 (cut cs).2 := by
  fun_induction cut cs with
  | case1 => exact .nil
  | case2 c cs h =>
    obtain ⟨rfl, never⟩ := next_eq_none_iff.1 h
    exact .unclosed never
  | case3 c cs s rest h more ih => exact .of_next h ih

theorem Cuts.cut_eq {cs left : List Char} {ss : List Segment} (h : Cuts cs ss left) :
    cut cs = (ss, left) := by
  induction h with
  | nil => exact cut_nil
  | unclosed never => exact cut_cons_none (next_eq_none_iff.2 ⟨rfl, never⟩)
  | cons begins more ih =>
    obtain ⟨c, tail, rfl, hn⟩ := next_of_begins begins
    rw [cut_cons_some hn, ih]

/-- Every text has just one cut. -/
theorem cuts_iff {cs left : List Char} {ss : List Segment} :
    Cuts cs ss left ↔ cut cs = (ss, left) := by
  refine ⟨Cuts.cut_eq, fun h => ?_⟩
  have := cuts_cut cs
  rwa [h] at this

theorem Cuts.unique {cs left left' : List Char} {ss ss' : List Segment} (h : Cuts cs ss left)
    (h' : Cuts cs ss' left') : ss' = ss ∧ left' = left := by
  have := h'.cut_eq.symm.trans h.cut_eq
  simpa using this

theorem Cuts.flatten_append {cs left : List Char} {ss : List Segment} (h : Cuts cs ss left) :
    (ss.map text).flatten ++ left = cs := by
  have := flatten_cut cs
  rwa [h.cut_eq] at this

theorem Cuts.text_ne_nil {cs left : List Char} {ss : List Segment} (h : Cuts cs ss left) :
    ∀ s ∈ ss, s.text ≠ [] := by
  induction h with
  | nil => simp
  | unclosed => simp
  | cons begins more ih =>
    obtain ⟨c, tail, rfl, hn⟩ := next_of_begins begins
    exact List.forall_mem_cons.2 ⟨text_ne_nil_of_next hn, ih⟩

theorem Cuts.begins_of_mem {cs left : List Char} {ss : List Segment} (h : Cuts cs ss left)
    {s : Segment} (mem : s ∈ ss) : ∃ cs' rest, Begins cs' s rest := by
  induction h with
  | nil => cases mem
  | unclosed => cases mem
  | cons begins more ih =>
    rcases List.mem_cons.1 mem with rfl | mem
    · exact ⟨_, _, begins⟩
    · exact ih mem

/-- What is left over is nothing or starts with a double quote that is never closed. -/
theorem Cuts.left_cases {cs left : List Char} {ss : List Segment} (h : Cuts cs ss left) :
    left = [] ∨ ∃ body, left = '"' :: body ∧ '"' ∉ body := by
  induction h with
  | nil => exact .inl rfl
  | unclosed never => exact .inr ⟨_, rfl, never⟩
  | cons _ _ ih => exact ih

/-! ### Tokens -/

/-- What a lexeme of a kind denotes: a string without its quotes, or the number that its digits
spell. -/
inductive Denotes : Kind → List Char → Value → Prop where
  | string {content : List Char} :
      Denotes .string ('"' :: (content ++ ['"'])) (.string (String.ofList content))
  | integer {whole : List Char} (digits : ∀ c ∈ whole, c.isDigit = true) :
      Denotes .number whole
        (.number (Number.ofDecimal false ⟨Nat.ofDigitChars 10 whole 0, 0⟩))
  | decimal {whole fraction : List Char} (digits : ∀ c ∈ whole, c.isDigit = true) :
      Denotes .number (whole ++ '.' :: fraction)
        (.number (Number.ofDecimal false
          ⟨Nat.ofDigitChars 10 (whole ++ fraction) 0, -(fraction.length : Int)⟩))
  | nothing {k : Kind} {text : List Char} (string : k ≠ .string) (number : k ≠ .number) :
      Denotes k text .null

/-- The tokens are those of the segments, in order; blanks and comments have none. -/
inductive TokensOf : List Segment → List Token → Prop where
  | nil : TokensOf [] []
  | blank {c : Char} {ss : List Segment} {ts : List Token} (more : TokensOf ss ts) :
      TokensOf (blank c :: ss) ts
  | comment {text : List Char} {ss : List Segment} {ts : List Token} (more : TokensOf ss ts) :
      TokensOf (comment text :: ss) ts
  | lexeme {text : List Char} {t : Token} {ss : List Segment} {ts : List Token}
      (lexeme_eq : t.lexeme = String.ofList text) (denotes : Denotes t.kind text t.literal)
      (more : TokensOf ss ts) : TokensOf (lexeme t.kind text :: ss) (t :: ts)

theorem literal_eq_null {k : Kind} {text : List Char} (string : k ≠ .string)
    (number : k ≠ .number) : literal k text = .null := by
  unfold literal
  split <;> simp_all

theorem numeralDecimal_of_integer {whole : List Char} (digits : ∀ c ∈ whole, c.isDigit = true) :
    numeralDecimal whole = ⟨Nat.ofDigitChars 10 whole 0, 0⟩ := by
  have run : LongestRun Char.isDigit whole [] := ⟨digits, by simp⟩
  have whole_eq := run.takeWhile_append
  rw [List.append_nil] at whole_eq
  simp [numeralDecimal, whole_eq]

theorem numeralDecimal_of_decimal {whole fraction : List Char}
    (digits : ∀ c ∈ whole, c.isDigit = true) :
    numeralDecimal (whole ++ '.' :: fraction) =
      ⟨Nat.ofDigitChars 10 (whole ++ fraction) 0, -(fraction.length : Int)⟩ := by
  have run : LongestRun Char.isDigit whole ('.' :: fraction) := ⟨digits, by simp⟩
  simp [numeralDecimal, run.takeWhile_append]

theorem Begins.denotes {cs rest text : List Char} {k : Kind} (h : Begins cs (lexeme k text) rest) :
    k ≠ .eof ∧ Denotes k text (literal k text) := by
  -- The kinds of strings and numbers are in none of the tables, and neither is that of the end.
  have plain : ∀ {k : Kind} {text : List Char}, k ≠ .eof → k ≠ .string → k ≠ .number →
      k ≠ .eof ∧ Denotes k text (literal k text) := by
    intro k text end_ string number
    rw [literal_eq_null string number]
    exact ⟨end_, .nothing string number⟩
  cases h with
  | @string content _ first =>
    refine ⟨by simp, ?_⟩
    have : literal .string ('"' :: (content ++ ['"'])) = .string (String.ofList content) := by
      simp [literal]
    rw [this]
    exact .string
  | integer ne run ends =>
    refine ⟨by simp, ?_⟩
    rw [literal, numeralDecimal_of_integer run.1]
    exact .integer run.1
  | decimal ne digits ne' run =>
    refine ⟨by simp, ?_⟩
    rw [literal, numeralDecimal_of_decimal digits]
    exact .decimal digits
  | @single c _ _ mem =>
    have : ∀ p ∈ singles, p.2 ≠ .eof ∧ p.2 ≠ .string ∧ p.2 ≠ .number := by decide
    obtain ⟨end_, string, number⟩ := this _ mem
    exact plain end_ string number
  | pair mem =>
    have : ∀ p ∈ pairs, p.2.2.1 ≠ .eof ∧ p.2.2.1 ≠ .string ∧ p.2.2.1 ≠ .number := by decide
    obtain ⟨end_, string, number⟩ := this _ mem
    exact plain end_ string number
  | alone mem =>
    have : ∀ p ∈ pairs, p.2.2.2 ≠ .eof ∧ p.2.2.2 ≠ .string ∧ p.2.2.2 ≠ .number := by decide
    obtain ⟨end_, string, number⟩ := this _ mem
    exact plain end_ string number
  | keyword start run mem =>
    have : ∀ p ∈ Kind.keywords, p.2 ≠ .eof ∧ p.2 ≠ .string ∧ p.2 ≠ .number := by decide
    obtain ⟨end_, string, number⟩ := this _ mem
    exact plain end_ string number
  | identifier => exact plain (by simp) (by simp) (by simp)
  | other => exact plain (by simp) (by simp) (by simp)

theorem Cuts.tokensOf {cs left : List Char} {ss : List Segment} (h : Cuts cs ss left) (p : Place) :
    TokensOf ss (tokens p ss) ∧ ∀ t ∈ tokens p ss, t.kind ≠ .eof := by
  induction h generalizing p with
  | nil => exact ⟨.nil, by simp [tokens]⟩
  | unclosed => exact ⟨.nil, by simp [tokens]⟩
  | @cons cs rest left s ss begins more ih =>
    obtain ⟨more_tokens, more_kinds⟩ := ih (p.advance s.text)
    cases s with
    | blank c => exact ⟨.blank more_tokens, more_kinds⟩
    | comment text => exact ⟨.comment more_tokens, more_kinds⟩
    | lexeme k text =>
      obtain ⟨end_, denotes⟩ := begins.denotes
      refine ⟨?_, List.forall_mem_cons.2 ⟨end_, more_kinds⟩⟩
      exact TokensOf.lexeme (t := Token.placedAt p k (String.ofList text) (literal k text)) rfl
        denotes more_tokens

end Segment

/-! ### Reading a source -/

theorem tokenize_of_closed {source : String} {ss : List Segment}
    (h : Segment.Cuts source.toList ss []) :
    tokenize source = .ok ⟨Segment.tokens .start ss, (Lexer.ofSource source).eof, rfl⟩ := by
  have hc := h.cut_eq
  simp only [tokenize, Lexer.tokenize, Lexer.ofSource, scan, hc]
  simp

theorem tokenize_of_unclosed {source : String} {ss : List Segment} {body : List Char}
    (h : Segment.Cuts source.toList ss ('"' :: body)) :
    tokenize source = .error ⟨Place.start.advance (ss.map Segment.text).flatten⟩ ∧
      (Lexer.ofSource source).tokenize.2.tokens = Segment.tokens .start ss := by
  have hc := h.cut_eq
  simp only [tokenize, Lexer.tokenize, Lexer.ofSource, scan, hc]
  simp [Lexer.tokens, scan, hc]

open Segment in
/-- **Reading a source cuts it into segments and keeps the lexemes.**  The cut goes by the rules,
which leave no choice; no character is lost or read twice.  Unless the cut stops before a double
quote that is never closed, reading gives the tokens of the segments and then the end of the text.
Otherwise it fails at that quote, and the tokens before it have been read. -/
theorem tokenize_cut (source : String) :
    ∃ ss left, Cuts source.toList ss left ∧
      (∀ ss' left', Cuts source.toList ss' left' → ss' = ss ∧ left' = left) ∧
      (∀ cs s s' rest rest', Begins cs s rest → Begins cs s' rest' → s = s' ∧ rest = rest') ∧
      (ss.map text).flatten ++ left = source.toList ∧ (∀ s ∈ ss, s.text ≠ []) ∧
      ((left = [] ∧ ∃ ts, tokenize source = .ok ts ∧ TokensOf ss ts.ahead ∧
          (∀ t ∈ ts.ahead, t.kind ≠ .eof) ∧ ts.last.kind = .eof ∧ ts.last.lexeme = "" ∧
          ts.last.literal = .null) ∨
        (∃ body e, left = '"' :: body ∧ '"' ∉ body ∧ tokenize source = .error e ∧
          e.place = Place.start.advance (ss.map text).flatten ∧
          TokensOf ss (Lexer.ofSource source).tokenize.2.tokens)) := by
  have h := cuts_cut source.toList
  refine ⟨_, _, h, fun ss' left' h' => h.unique h', fun cs s s' rest rest' hb => hb.unique,
    h.flatten_append, h.text_ne_nil, ?_⟩
  obtain ⟨tokensOf, kinds⟩ := h.tokensOf .start
  rcases h.left_cases with closed | ⟨body, unclosed, never⟩
  · rw [closed] at h
    exact .inl ⟨closed, _, tokenize_of_closed h, tokensOf, kinds, rfl, rfl, rfl⟩
  · rw [unclosed] at h
    obtain ⟨failed, read⟩ := tokenize_of_unclosed h
    exact .inr ⟨body, _, unclosed, never, failed, rfl, by rwa [read]⟩

end Lisplet
