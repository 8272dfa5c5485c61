import Lisplet.Proofs.Segmentation.Rules

/-!
# The next segment

The rules leave no choice: `Segment.next` finds the one segment that a text begins with
(`Segment.begins_iff_next`), and there is none just where a double quote is never closed
(`Segment.next_eq_none_iff`).  The rules are told apart by the first character, so the module starts
with what each class of first characters excludes.
-/

namespace Lisplet

namespace Segment

/-! ### The first character -/

theorem isLayout_iff {c : Char} : isLayout c = true ↔ c ∈ [' ', '\t', '\r', '\n'] := by
  simp [isLayout, or_assoc]

/-- The characters that the rules for symbols are about. -/
def IsSymbol (c : Char) : Prop :=
  isLayout c = false ∧ c ≠ ';' ∧ c ≠ '"' ∧ c.isDigit = false ∧ isWordStart c = false

theorem next_of_isSymbol {c : Char} {cs : List Char} (h : IsSymbol c)
    (single : c = commentMark → cs.head? ≠ some commentMark) :
    next c cs = some (nextSymbol c cs) := by
  obtain ⟨layout, semicolon, quote, digit, word⟩ := h
  rw [next, if_neg (by simp [layout]), if_neg semicolon, if_neg (not_and.2 single), if_neg quote,
    if_neg (by simp [digit]), if_neg (by simp [word])]

theorem isSymbol_of_mem_singles {c : Char} {k : Kind} (h : (c, k) ∈ singles) :
    IsSymbol c ∧ c ≠ commentMark ∧ Kind.ofSingle? c = some k := by
  simp only [singles, List.mem_cons, Prod.mk.injEq, List.not_mem_nil, or_false] at h
  rcases h with ⟨rfl, rfl⟩ | ⟨rfl, rfl⟩ | ⟨rfl, rfl⟩ | ⟨rfl, rfl⟩ | ⟨rfl, rfl⟩ | ⟨rfl, rfl⟩ |
    ⟨rfl, rfl⟩ | ⟨rfl, rfl⟩ <;> refine ⟨⟨?_, ?_, ?_, ?_, ?_⟩, ?_, rfl⟩ <;> decide

theorem isSymbol_of_mem_pairs {c d : Char} {pair alone : Kind} (h : (c, d, pair, alone) ∈ pairs) :
    IsSymbol c ∧ c ≠ commentMark ∧ Kind.ofSingle? c = none ∧
      Kind.ofPair? c = some (d, pair, alone) := by
  simp only [pairs, List.mem_cons, Prod.mk.injEq, List.not_mem_nil, or_false] at h
  rcases h with ⟨rfl, rfl, rfl, rfl⟩ | ⟨rfl, rfl, rfl, rfl⟩ | ⟨rfl, rfl, rfl, rfl⟩ <;>
    refine ⟨⟨?_, ?_, ?_, ?_, ?_⟩, ?_, rfl, rfl⟩ <;> decide

theorem mem_singles_of_ofSingle? {c : Char} {k : Kind} (h : Kind.ofSingle? c = some k) :
    (c, k) ∈ singles := by
  unfold Kind.ofSingle? at h
  split at h <;> simp_all [singles]

theorem mem_pairs_of_ofPair? {c d : Char} {pair alone : Kind}
    (h : Kind.ofPair? c = some (d, pair, alone)) : (c, d, pair, alone) ∈ pairs := by
  unfold Kind.ofPair? at h
  split at h <;> cases h <;> simp [pairs]

theorem isAlpha_eq (c : Char) : c.isAlpha = (decide (c.val ≥ 'A'.val ∧ c.val ≤ 'Z'.val) ||
    (decide (c.val ≥ 'a'.val) && decide (c.val ≤ 'z'.val))) := rfl

theorem isDigit_eq_false_of_isWordStart {c : Char} (h : isWordStart c = true) :
    c.isDigit = false := by
  simp only [isWordStart, isAlpha_eq, Bool.or_eq_true, Bool.and_eq_true, decide_eq_true_eq,
    beq_iff_eq] at h
  simp only [Char.isDigit, Bool.and_eq_false_iff, decide_eq_false_iff_not]
  rcases h with ((h | h) | rfl) | rfl
  all_goals grind

theorem not_special {p : Char → Bool}
    (hp : [' ', '\t', '\r', '\n', ';', commentMark, '"'].all (fun d => !p d) = true) {c : Char}
    (h : p c = true) : isLayout c = false ∧ c ≠ ';' ∧ c ≠ commentMark ∧ c ≠ '"' := by
  have special : ∀ d ∈ [' ', '\t', '\r', '\n', ';', commentMark, '"'], c ≠ d := by
    rintro d hd rfl
    simpa [h] using List.all_eq_true.1 hp c hd
  refine ⟨?_, special _ (by simp), special _ (by simp), special _ (by simp)⟩
  rw [Bool.eq_false_iff, Ne, isLayout_iff]
  intro layout
  exact special c (List.mem_append_left [';', commentMark, '"'] layout) rfl

theorem not_special_of_isDigit {c : Char} (h : c.isDigit = true) :
    isLayout c = false ∧ c ≠ ';' ∧ c ≠ commentMark ∧ c ≠ '"' :=
  not_special rfl h

theorem not_special_of_isWordStart {c : Char} (h : isWordStart c = true) :
    isLayout c = false ∧ c ≠ ';' ∧ c ≠ commentMark ∧ c ≠ '"' :=
  not_special rfl h

theorem next_of_isDigit {c : Char} {cs : List Char} (h : c.isDigit = true) :
    next c cs = some (lexeme .number (splitNumber (c :: cs)).1, (splitNumber (c :: cs)).2) := by
  obtain ⟨layout, semicolon, mark, quote⟩ := not_special_of_isDigit h
  rw [next, if_neg (by simp [layout]), if_neg semicolon, if_neg (fun hm => mark hm.1),
    if_neg quote, if_pos h]

theorem next_of_isWordStart {c : Char} {part rest : List Char} (h : isWordStart c = true)
    (run : LongestRun isWordPart part rest) :
    next c (part ++ rest) =
      some (lexeme (Kind.ofWord (String.ofList (c :: part))) (c :: part), rest) := by
  obtain ⟨layout, semicolon, mark, quote⟩ := not_special_of_isWordStart h
  rw [next, if_neg (by simp [layout]), if_neg semicolon, if_neg (fun hm => mark hm.1),
    if_neg quote, if_neg (by simp [isDigit_eq_false_of_isWordStart h]), if_pos h]
  simp only [run.takeWhile_append, run.dropWhile_append]

/-! ### The rules and the next segment -/

theorem next_of_begins {cs rest : List Char} {s : Segment} (h : Begins cs s rest) :
    ∃ c tail, cs = c :: tail ∧ next c tail = some (s, rest) := by
  -- For each rule, the tests before the one that it is about fail.
  cases h with
  | @blank c _ layout => exact ⟨c, rest, rfl, by rw [next, if_pos (isLayout_iff.2 layout)]⟩
  | @lineComment body _ run =>
    refine ⟨';', body ++ rest, rfl, ?_⟩
    rw [next, if_neg (by decide), if_pos rfl, run.takeWhile_append, run.dropWhile_append]
  | @blockComment body _ first =>
    refine ⟨_, _, rfl, ?_⟩
    rw [next, if_neg (by decide), if_neg (by decide), if_pos ⟨rfl, rfl⟩, List.tail_cons,
      splitAfterMark_of_first first]
  | @openComment body unclosed =>
    refine ⟨_, _, rfl, ?_⟩
    rw [next, if_neg (by decide), if_neg (by decide), if_pos ⟨rfl, rfl⟩, List.tail_cons,
      splitAfterMark_of_not_hasMark unclosed]
  | @string content _ first =>
    refine ⟨_, _, rfl, ?_⟩
    rw [next, if_neg (by decide), if_neg (by decide), if_neg (by simp [commentMark]), if_pos rfl,
      splitAfterQuote_of_first first]
    rfl
  | @single c k _ mem =>
    obtain ⟨symbol, mark, kind⟩ := isSymbol_of_mem_singles mem
    refine ⟨c, rest, rfl, ?_⟩
    rw [next_of_isSymbol symbol (fun h => absurd h mark), nextSymbol, kind]
  | @pair c d pair alone _ mem =>
    obtain ⟨symbol, mark, kind, kinds⟩ := isSymbol_of_mem_pairs mem
    refine ⟨c, d :: rest, rfl, ?_⟩
    rw [next_of_isSymbol symbol (fun h => absurd h mark), nextSymbol, kind, kinds]
    simp
  | @alone c d pair alone _ mem single =>
    obtain ⟨symbol, mark, kind, kinds⟩ := isSymbol_of_mem_pairs mem
    refine ⟨c, rest, rfl, ?_⟩
    rw [next_of_isSymbol symbol (fun h => absurd h mark), nextSymbol, kind, kinds]
    cases rest with
    | nil => rfl
    | cons e es => simp_all
  | @integer whole _ ne run ends =>
    cases whole with
    | nil => exact absurd rfl ne
    | cons c whole =>
      refine ⟨c, whole ++ rest, rfl, ?_⟩
      rw [next_of_isDigit (run.1 c List.mem_cons_self), ← List.cons_append,
        splitNumber_of_integer run ends]
  | @decimal whole fraction _ ne digits ne' run =>
    cases whole with
    | nil => exact absurd rfl ne
    | cons c whole =>
      refine ⟨c, whole ++ '.' :: (fraction ++ rest), rfl, ?_⟩
      rw [next_of_isDigit (digits c List.mem_cons_self), ← List.cons_append,
        splitNumber_of_decimal digits ne' run]
  | @keyword c part _ k start run mem =>
    exact ⟨c, part ++ rest, rfl, by rw [next_of_isWordStart start run, ofWord_of_mem mem]⟩
  | @identifier c part _ start run noKeyword =>
    exact ⟨c, part ++ rest, rfl, by
      rw [next_of_isWordStart start run, ofWord_of_forall_not_mem noKeyword]⟩
  | @other c _ other single =>
    obtain ⟨layout, semicolon, quote, noSingle, noPair, digit, word⟩ := other
    refine ⟨c, rest, rfl, ?_⟩
    rw [next_of_isSymbol ⟨layout, semicolon, quote, digit, word⟩ single, nextSymbol]
    cases kind : Kind.ofSingle? c with
    | some k => exact absurd (mem_singles_of_ofSingle? kind) (noSingle k)
    | none =>
      cases kinds : Kind.ofPair? c with
      | some p => exact absurd (mem_pairs_of_ofPair? kinds) (noPair p.1 p.2.1 p.2.2)
      | none => rfl

theorem begins_nextSymbol {c : Char} {cs : List Char} (symbol : IsSymbol c)
    (single : c = commentMark → cs.head? ≠ some commentMark) :
    Begins (c :: cs) (nextSymbol c cs).1 (nextSymbol c cs).2 := by
  unfold nextSymbol
  cases kind : Kind.ofSingle? c with
  | some k => exact .single (mem_singles_of_ofSingle? kind)
  | none =>
    cases kinds : Kind.ofPair? c with
    | some p =>
      obtain ⟨d, pair, alone⟩ := p
      have mem := mem_pairs_of_ofPair? kinds
      cases cs with
      | nil => exact .alone mem (by simp)
      | cons e es =>
        by_cases he : e = d
        · simpa [he] using .pair mem
        · simpa [he] using .alone mem (by simpa using he)
    | none =>
      obtain ⟨layout, semicolon, quote, digit, word⟩ := symbol
      refine .other ⟨layout, semicolon, quote, fun k mem => ?_, fun d pair alone mem => ?_, digit,
        word⟩ single
      · simp [(isSymbol_of_mem_singles mem).2.2] at kind
      · simp [(isSymbol_of_mem_pairs mem).2.2.2] at kinds

theorem begins_of_next {c : Char} {cs rest : List Char} {s : Segment}
    (h : next c cs = some (s, rest)) : Begins (c :: cs) s rest := by
  unfold next at h
  split at h
  · rename_i layout
    cases h
    exact .blank (isLayout_iff.1 layout)
  rename_i layout
  split at h
  · rename_i semicolon
    cases h
    have := Begins.lineComment (longestRun_takeWhile (· != '\n') cs)
    rwa [List.takeWhile_append_dropWhile, ← semicolon] at this
  rename_i semicolon
  split at h
  · rename_i mark
    cases h
    obtain ⟨rfl, hd⟩ := mark
    obtain ⟨tail, rfl⟩ := List.head?_eq_some_iff.1 hd
    rw [List.tail_cons]
    rcases splitAfterMark_cases tail with ⟨body, rest, rfl, first, hs⟩ | ⟨unclosed, hs⟩
    · rw [hs]
      exact .blockComment first
    · rw [hs]
      exact .openComment unclosed
  rename_i mark
  split at h
  · rename_i quote
    rcases splitAfterQuote_cases cs with ⟨content, rest, rfl, first, hs⟩ | ⟨-, hs⟩
    · rw [hs] at h
      cases h
      rw [quote]
      exact .string first
    · simp [hs] at h
  rename_i quote
  split at h
  · rename_i digit
    cases h
    -- The rules leave the choice between the two numbers to what stands behind the digits.
    rcases splitNumber_cases c cs digit with
      ⟨whole, rest, text, ne, run, ends, hs⟩ |
      ⟨whole, fraction, rest, text, ne, digits, ne', run, hs⟩
    · rw [hs, text]
      exact .integer ne run ends
    · rw [hs, text]
      exact .decimal ne digits ne' run
  rename_i digit
  split at h
  · rename_i start
    cases h
    have run := longestRun_takeWhile isWordPart cs
    have text := List.takeWhile_append_dropWhile (p := isWordPart) (l := cs)
    by_cases keyword : ∃ k, (String.ofList (c :: cs.takeWhile isWordPart), k) ∈ Kind.keywords
    · obtain ⟨k, mem⟩ := keyword
      have := Begins.keyword start run mem
      rwa [text, ← ofWord_of_mem mem] at this
    · have noKeyword := not_exists.1 keyword
      have := Begins.identifier start run noKeyword
      rwa [text, ← ofWord_of_forall_not_mem noKeyword] at this
  rename_i start
  have := begins_nextSymbol ⟨by simpa using layout, semicolon, quote, by simpa using digit,
    by simpa using start⟩ (not_and.1 mark)
  rwa [Option.some.inj h] at this

/-- The text begins with the segment that is cut from it next, and with no other. -/
theorem begins_iff_next {c : Char} {cs rest : List Char} {s : Segment} :
    Begins (c :: cs) s rest ↔ next c cs = some (s, rest) := by
  refine ⟨fun h => ?_, begins_of_next⟩
  obtain ⟨_, _, text, hn⟩ := next_of_begins h
  cases text
  exact hn

theorem not_begins_nil {rest : List Char} {s : Segment} : ¬ Begins [] s rest := by
  intro h
  obtain ⟨_, _, text, -⟩ := next_of_begins h
  cases text

/-- What a text begins with, and what it goes on with, is fixed by the text. -/
theorem Begins.unique {cs rest rest' : List Char} {s s' : Segment} (h : Begins cs s rest)
    (h' : Begins cs s' rest') : s = s' ∧ rest = rest' := by
  cases cs with
  | nil => exact absurd h not_begins_nil
  | cons c cs =>
    have := (begins_iff_next.1 h).symm.trans (begins_iff_next.1 h')
    simpa using this

/-- Nothing can be cut from a text just where a double quote is never closed. -/
theorem next_eq_none_iff {c : Char} {cs : List Char} : next c cs = none ↔ c = '"' ∧ '"' ∉ cs := by
  constructor
  · intro h
    unfold next at h
    repeat (split at h; · simp at h)
    split at h
    · rename_i quote
      rcases splitAfterQuote_cases cs with ⟨content, rest, rfl, first, hs⟩ | ⟨none, -⟩
      · simp [hs] at h
      · exact ⟨quote, none⟩
    · repeat (split at h; · simp at h)
      simp at h
  · rintro ⟨rfl, none⟩
    rcases splitAfterQuote_cases cs with ⟨content, rest, rfl, -⟩ | ⟨-, hs⟩
    · simp at none
    · rw [next, if_neg (by decide), if_neg (by decide), if_neg (by simp [commentMark]), if_pos rfl,
        hs]
      rfl

end Segment

end Lisplet
