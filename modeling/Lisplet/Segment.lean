import Lisplet.Token.Basic

/-!
# Segments of a source text

A source text is cut into consecutive segments: single blanks, comments and lexemes.  What the next
segment is depends on the rest of the text alone (`Segment.next`), and no character is lost or read
twice (`Segment.text_append_of_next`, `Segment.flatten_cut`).  The cut stops before a double quote
that is never closed.
-/

namespace Lisplet

/-- The blanks between tokens. -/
def isLayout (c : Char) : Bool := c == ' ' || c == '\t' || c == '\r' || c == '\n'

/-- The characters that an identifier or a keyword starts with. -/
def isWordStart (c : Char) : Bool := c.isAlpha || c == '_' || c == '$'

/-- The characters of identifiers and keywords after the first. -/
def isWordPart (c : Char) : Bool := isWordStart c || c.isDigit || c == '?' || c == '-'

/-- The character that, written twice, opens and closes a block comment. -/
def commentMark : Char := '\x60'

/-- A piece of source text. -/
inductive Segment where
  | blank (c : Char)
  | comment (text : List Char)
  | lexeme (kind : Kind) (text : List Char)
deriving DecidableEq

namespace Segment

/-- The source text of a segment. -/
def text : Segment → List Char
  | blank c => [c]
  | comment text => text
  | lexeme _ text => text

/-! ### The next segment -/

/-- Splits a text after its first doubled comment mark, or at its end if it has none. -/
def splitAfterMark : List Char → List Char × List Char
  | c :: d :: cs =>
    if c = commentMark ∧ d = commentMark then ([c, d], cs)
    else
      let split := splitAfterMark (d :: cs)
      (c :: split.1, split.2)
  | cs => (cs, [])

/-- Splits a text after its next double quote, if it has one. -/
def splitAfterQuote (cs : List Char) : Option (List Char × List Char) :=
  match cs.dropWhile (· != '"') with
  | [] => none
  | quote :: rest => some (cs.takeWhile (· != '"') ++ [quote], rest)

/-- Splits a text after its leading number: digits, and a point with digits behind it. -/
def splitNumber (cs : List Char) : List Char × List Char :=
  let whole := cs.takeWhile Char.isDigit
  match cs.dropWhile Char.isDigit with
  | point :: d :: ds =>
    if point = '.' ∧ d.isDigit = true then
      (whole ++ point :: d :: ds.takeWhile Char.isDigit, ds.dropWhile Char.isDigit)
    else (whole, point :: d :: ds)
  | rest => (whole, rest)

/-- The operator or bracket at the start of `c :: cs`, with its second character where it has one;
any other character stands for itself. -/
def nextSymbol (c : Char) (cs : List Char) : Segment × List Char :=
  match Kind.ofSingle? c with
  | some kind => (lexeme kind [c], cs)
  | none =>
    match Kind.ofPair? c with
    | none => (lexeme .unidentified [c], cs)
    | some (second, pair, single) =>
      match cs with
      | d :: ds => if d = second then (lexeme pair [c, d], ds) else (lexeme single [c], cs)
      | [] => (lexeme single [c], [])

/-- The segment at the start of `c :: cs` and the text after it.  There is none at a double quote
that is never closed. -/
def next (c : Char) (cs : List Char) : Option (Segment × List Char) :=
  if isLayout c then some (blank c, cs)
  else if c = ';' then
    some (comment (c :: cs.takeWhile (· != '\n')), cs.dropWhile (· != '\n'))
  else if c = commentMark ∧ cs.head? = some commentMark then
    let split := splitAfterMark cs.tail
    some (comment (c :: commentMark :: split.1), split.2)
  else if c = '"' then
    (splitAfterQuote cs).map fun split => (lexeme .string (c :: split.1), split.2)
  else if c.isDigit then
    let split := splitNumber (c :: cs)
    some (lexeme .number split.1, split.2)
  else if isWordStart c then
    let word := c :: cs.takeWhile isWordPart
    some (lexeme (Kind.ofWord (String.ofList word)) word, cs.dropWhile isWordPart)
  else
    some (nextSymbol c cs)

theorem splitAfterMark_append (cs : List Char) :
    (splitAfterMark cs).1 ++ (splitAfterMark cs).2 = cs := by
  fun_induction splitAfterMark cs with
  | case1 => rfl
  | case2 c d cs _ _ ih => simpa using ih
  | case3 cs => simp

theorem splitAfterQuote_append {cs : List Char} {split : List Char × List Char}
    (h : splitAfterQuote cs = some split) : split.1 ++ split.2 = cs := by
  unfold splitAfterQuote at h
  split at h
  · cases h
  · rename_i quote rest hd
    cases h
    rw [List.append_assoc, List.singleton_append, ← hd, List.takeWhile_append_dropWhile]

theorem splitNumber_append (cs : List Char) : (splitNumber cs).1 ++ (splitNumber cs).2 = cs := by
  have whole := List.takeWhile_append_dropWhile (p := Char.isDigit) (l := cs)
  simp only [splitNumber]
  split
  · rename_i point d ds hd
    split
    · rw [List.append_assoc, List.cons_append, List.cons_append, List.takeWhile_append_dropWhile,
        ← hd, whole]
    · rw [← hd, whole]
  · exact whole

theorem nextSymbol_append (c : Char) (cs : List Char) :
    (nextSymbol c cs).1.text ++ (nextSymbol c cs).2 = c :: cs := by
  unfold nextSymbol
  split
  · rfl
  · split
    · rfl
    · split
      · split <;> rfl
      · rfl

theorem text_nextSymbol_ne_nil (c : Char) (cs : List Char) : (nextSymbol c cs).1.text ≠ [] := by
  unfold nextSymbol
  split
  · simp [text]
  · split
    · simp [text]
    · split
      · split <;> simp [text]
      · simp [text]

/-- A segment and the text after it are the whole text. -/
theorem text_append_of_next {c : Char} {cs rest : List Char} {s : Segment}
    (h : next c cs = some (s, rest)) : s.text ++ rest = c :: cs := by
  unfold next at h
  split at h
  · cases h; rfl
  split at h
  · cases h
    simp only [text, List.cons_append, List.takeWhile_append_dropWhile]
  split at h
  · rename_i hm
    cases h
    cases cs with
    | nil => simp at hm
    | cons d ds =>
      have hd : d = commentMark := by simpa using hm.2
      simp only [text, List.tail_cons, List.cons_append, splitAfterMark_append, hd]
  split at h
  · cases hq : splitAfterQuote cs with
    | none => simp [hq] at h
    | some split =>
      simp only [hq, Option.map_some, Option.some.injEq, Prod.mk.injEq] at h
      obtain ⟨rfl, rfl⟩ := h
      simp only [text, List.cons_append, splitAfterQuote_append hq]
  split at h
  · cases h
    exact splitNumber_append _
  split at h
  · cases h
    simp only [text, List.cons_append, List.takeWhile_append_dropWhile]
  · rw [← nextSymbol_append c cs, Option.some.inj h]

/-- A segment is not empty. -/
theorem text_ne_nil_of_next {c : Char} {cs rest : List Char} {s : Segment}
    (h : next c cs = some (s, rest)) : s.text ≠ [] := by
  unfold next at h
  split at h
  · cases h; simp [text]
  split at h
  · cases h; simp [text]
  split at h
  · cases h; simp [text]
  split at h
  · cases hq : splitAfterQuote cs with
    | none => simp [hq] at h
    | some split =>
      simp only [hq, Option.map_some, Option.some.injEq, Prod.mk.injEq] at h
      obtain ⟨rfl, rfl⟩ := h
      simp [text]
  split at h
  · rename_i hd
    cases h
    simp only [text, splitNumber]
    split
    · split <;> simp [hd]
    · simp [hd]
  split at h
  · cases h; simp [text]
  · have := text_nextSymbol_ne_nil c cs
    rwa [Option.some.inj h] at this

theorem length_lt_of_next {c : Char} {cs rest : List Char} {s : Segment}
    (h : next c cs = some (s, rest)) : rest.length < (c :: cs).length := by
  have := congrArg List.length (text_append_of_next h)
  have := List.length_pos_iff.2 (text_ne_nil_of_next h)
  rw [List.length_append] at *
  omega

/-! ### The cut of a whole text -/

/-- The segments of a text, and what is left of it: nothing, or the text from a double quote on that
is never closed. -/
def cut : List Char → List Segment × List Char
  | [] => ([], [])
  | c :: cs =>
    match _h : next c cs with
    | none => ([], c :: cs)
    | some (s, rest) => let more := cut rest; (s :: more.1, more.2)
termination_by cs => cs.length
decreasing_by exact length_lt_of_next _h

theorem cut_nil : cut [] = ([], []) := by rw [cut]

theorem cut_cons_none {c : Char} {cs : List Char} (h : next c cs = none) :
    cut (c :: cs) = ([], c :: cs) := by
  rw [cut]
  split
  · rfl
  · simp_all

theorem cut_cons_some {c : Char} {cs rest : List Char} {s : Segment}
    (h : next c cs = some (s, rest)) :
    cut (c :: cs) = (s :: (cut rest).1, (cut rest).2) := by
  rw [cut]
  split
  · simp_all
  · rename_i s' rest' h'
    rw [h] at h'
    cases h'
    rfl

/-- The segments and what is left after them are the whole text. -/
theorem flatten_cut (cs : List Char) :
    ((cut cs).1.map text).flatten ++ (cut cs).2 = cs := by
  fun_induction cut cs with
  | case1 => rfl
  | case2 => rfl
  | case3 c cs s rest h more ih =>
    simp only [List.map_cons, List.flatten_cons, List.append_assoc]
    rw [ih, text_append_of_next h]

/-! ### Tokens -/

/-- The value of a numeral: its digits, and a power of ten for those behind the point. -/
def numeralDecimal (numeral : List Char) : Decimal :=
  let whole := numeral.takeWhile Char.isDigit
  let fraction := (numeral.drop whole.length).tail
  ⟨Nat.ofDigitChars 10 (whole ++ fraction) 0, -(fraction.length : Int)⟩

/-- The value that a lexeme denotes: a string without its quotes, or a number. -/
def literal (kind : Kind) (text : List Char) : Value :=
  match kind with
  | .string => .string (String.ofList text.tail.dropLast)
  | .number => .number (Number.ofDecimal false (numeralDecimal text))
  | _ => .null

/-- The token of a segment at a place; blanks and comments have none. -/
def token? (p : Place) : Segment → Option Token
  | lexeme kind text => some (Token.placedAt p kind (String.ofList text) (literal kind text))
  | _ => none

/-- The tokens of consecutive segments, the first one at the given place. -/
def tokens (p : Place) : List Segment → List Token
  | [] => []
  | s :: ss => (s.token? p).toList ++ tokens (p.advance s.text) ss

end Segment

end Lisplet
