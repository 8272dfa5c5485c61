import Lisplet.Proofs.Grammar.Forms

/-!
# The parser reads exactly the grammar

With room for as many nested expressions as there are tokens, `Parser.expression` reads at each
level just what the grammar allows there (`Parser.reads_expression`).  So a program is parsed into
`es` if and only if it derives from the grammar with the trees `es`, it is refused if and only if it
does not derive, and no tokens derive with two different trees (`parseWithin_eq_ok_iff_derives`).
-/

namespace Lisplet

open Grammar

namespace Parser

variable {room : Nat} {level : Level} {opening head sign : Token} {rest : Tokens}

/-! ### One step of the descent -/

theorem expression_form {form : Form} (ho : opening.kind = .lparen)
    (hf : Form.ofHead? head.kind = some form) (admits : level.admits form = true) :
    expression (room + 1) level (rest.prepend [opening, head]) =
      inside (expression room) form head rest := by
  have hh : head.kind ≠ .eof := by
    intro h
    rw [h] at hf
    cases hf
  have : form? (rest.prepend [opening, head]) = some form := by simp [form?, ho, hf]
  simp only [expression, this, if_pos admits]
  exact head_bind _ rest (by simp [ho]) hh

theorem expression_signed (hs : sign.kind.isSign = true)
    (single : rest.current.kind.isSign = false) :
    expression (room + 1) level (rest.prepend [sign]) =
      (expression room .any >>= fun right => pure (.unary sign right)) rest := by
  have hk : sign.kind ≠ .eof ∧ sign.kind ≠ .lparen := by
    constructor <;> intro h <;> rw [h] at hs <;> cases hs
  have form : form? (rest.prepend [sign]) = none := by simp [form?, hk.2]
  have sign' : signs (rest.prepend [sign]) = true := by simp [signs, hs, single]
  simp only [expression, form, if_pos sign']
  change (expression room .any >>= fun right => pure (Expr.unary sign right))
    (rest.prepend [sign]).advance = _
  rw [Tokens.advance_prepend_cons hk.1, Tokens.prepend_nil]

theorem expression_single {e : Expr} (h : single? head = some e) :
    expression (room + 1) level (rest.prepend [head]) = atom (rest.prepend [head]) := by
  have hk : head.kind ≠ .lparen ∧ head.kind.isSign = false := by
    unfold single? at h
    split at h <;> simp_all [Kind.isSign]
  have form : form? (rest.prepend [head]) = none := by simp [form?, hk.1]
  have sign : signs (rest.prepend [head]) = false := by simp [signs, hk.2]
  simp [expression, form, sign]

/-- An expression is a form that may stand here, or it is signed, or it is read as a literal. -/
theorem expression_cases (room : Nat) (level : Level) (ts : Tokens) :
    (∃ (form : Form) (opening head : Token) (rest : Tokens), ts = rest.prepend [opening, head] ∧
      opening.kind = .lparen ∧ Form.ofHead? head.kind = some form ∧ level.admits form = true ∧
      expression (room + 1) level ts = inside (expression room) form head rest) ∨
    (∃ (sign : Token) (rest : Tokens), ts = rest.prepend [sign] ∧ sign.kind.isSign = true ∧
      rest.current.kind.isSign = false ∧ expression (room + 1) level ts =
        (expression room .any >>= fun right => pure (.unary sign right)) rest) ∨
    expression (room + 1) level ts = atom ts := by
  cases hf : form? ts with
  | some form =>
    by_cases admits : level.admits form = true
    · left
      unfold form? at hf
      split at hf
      · rename_i ho
        have hh : ts.following.kind ≠ .eof := by
          intro h
          rw [h] at hf
          cases hf
        obtain ⟨rest, hr⟩ := Tokens.exists_eq_prepend (by simp [ho]) hh
        rw [hr]
        exact ⟨form, _, _, rest, rfl, ho, hf, admits, expression_form ho hf admits⟩
      · cases hf
    · exact .inr (.inr (by simp [expression, hf, admits]))
  | none =>
    cases hs : signs ts with
    | true =>
      right; left
      simp only [signs, Bool.and_eq_true, Bool.not_eq_true'] at hs
      have hk : ts.current.kind ≠ .eof := by
        intro h
        rw [h] at hs
        cases hs.1
      obtain ⟨sign, rest, rfl⟩ : ∃ (sign : Token) (rest : Tokens), ts = rest.prepend [sign] :=
        ⟨_, _, Tokens.eq_prepend_current hk⟩
      exact ⟨sign, rest, rfl, hs.1, hs.2, expression_signed hs.1 hs.2⟩
    | false => exact .inr (.inr (by simp [expression, hf, hs]))

/-! ### All levels -/

/-- At each level the parser reads just what the grammar allows there. -/
theorem reads_expression (room : Nat) (level : Level) :
    Reads room (expression room level) fun w _ e => Derives (phraseAt level e) w := by
  induction room generalizing level with
  | zero =>
    exact ⟨fun h => (by cases h), fun _ _ _ => .inr rfl, fun h => absurd h (Nat.not_lt_zero _)⟩
  | succ room ih =>
    have signed (sign : Token) : Reads room
        (expression room .any >>= fun right => pure (Expr.unary sign right)) fun w _ e =>
          ∃ right, Derives (.expression right) w ∧ e = .unary sign right :=
      ((ih .any).bind fun right => Reads.pure _).congr fun w rest e => by
        constructor
        · rintro ⟨u, -, right, rfl, d, rfl, rfl⟩
          exact ⟨right, by rwa [List.append_nil], rfl⟩
        · rintro ⟨right, d, rfl⟩
          exact ⟨w, [], right, by simp, d, rfl, rfl⟩
    have literal : Reads (room + 1) atom fun w _ e => Derives (.literal e) w := Reads.atom
    refine ⟨fun {ts rest e} h => ?_, fun {w} rest {e} d => ?_, fun {ts} hn h => ?_⟩
    -- What the parser does is told by the first two tokens, what is derived by `derives_level_iff`.
    · obtain ⟨form, opening, head, ts, rfl, ho, hf, admits, he⟩ | ⟨sign, ts, rfl, hs, single, he⟩ |
        he := expression_cases room level ts <;> rw [he] at h
      · obtain ⟨w, rfl, d⟩ := (Reads.inside ih ho hf).sound h
        exact ⟨_, Tokens.prepend_prepend, derives_level_iff.2 (.inl ⟨form, admits, d⟩)⟩
      · obtain ⟨w, rfl, right, d, rfl⟩ := (signed sign).sound h
        refine ⟨_, Tokens.prepend_prepend, derives_level_iff.2 (.inr (.inl ?_))⟩
        refine derives_signed_iff.2 ⟨sign, right, w, hs, fun t ht => ?_, d, rfl, rfl⟩
        obtain ⟨t', v, rfl, -⟩ := d.starts trivial
        obtain rfl : t' = t := by simpa using ht
        exact single
      · obtain ⟨w, rfl, d⟩ := literal.sound h
        exact ⟨w, rfl, derives_level_iff.2 (.inr (.inr d))⟩
    · rcases derives_level_iff.1 d with ⟨form, admits, d⟩ | d | d
      · obtain ⟨opening, head, v, rfl, ho, hh⟩ := d.exists_head
        have hf := ofHead?_eq_some_iff.2 hh
        have := (Reads.inside ih ho hf).complete rest d
        rwa [← expression_form ho hf admits, Tokens.prepend_prepend] at this
      · obtain ⟨sign, right, v, hs, single, operand, rfl, rfl⟩ := derives_signed_iff.1 d
        have := (signed sign).complete rest ⟨right, operand, rfl⟩
        obtain ⟨t, v, rfl, -⟩ := operand.starts trivial
        have follows : (rest.prepend (t :: v)).current.kind.isSign = false := single t rfl
        rwa [← expression_signed hs follows, Tokens.prepend_prepend] at this
      · obtain ⟨t, hs, rfl⟩ := derives_literal_iff.1 d
        rw [expression_single hs]
        exact literal.complete rest d
    · obtain ⟨form, opening, head, ts, rfl, ho, hf, admits, he⟩ | ⟨sign, ts, rfl, hs, single, he⟩ |
        he := expression_cases room level ts <;> rw [he] at h
      · simp only [Tokens.ahead_prepend, List.length_append, List.length_cons] at hn
        exact (Reads.inside ih ho hf).calm (by omega) h
      · simp only [Tokens.ahead_prepend, List.length_append, List.length_cons] at hn
        exact (signed sign).calm (by omega) h
      · exact literal.calm hn h

theorem expression_prepend {e : Expr} {w : List Token} (d : Derives (.expression e) w)
    (rest : Tokens) : w ≠ [] ∧ (!(rest.prepend w).atEnd) = true := by
  obtain ⟨t, v, rfl, ht⟩ := d.starts trivial
  have : t.kind ≠ .eof := fun h => by rw [h] at ht; cases ht
  simp [Tokens.atEnd_eq_false this]

/-- Expressions are read up to where the text ends. -/
theorem reads_wholeText {n : Nat} {p : Parser Expr}
    (hp : Reads n p fun w _ e => Derives (.expression e) w) :
    Reads n (many (fun ts => !ts.atEnd) p) fun w rest es =>
      Derives (.program es) w ∧ rest.atEnd = true :=
  (Reads.many hp (fun rest d => expression_prepend d rest)
    fun h => by simp [Tokens.atEnd_of_ahead_eq_nil h]).congr fun w rest es => by
    constructor
    · rintro ⟨parts, each, rfl, rfl, stop⟩
      exact ⟨.program each, by simpa using stop⟩
    · rintro ⟨d, atEnd⟩
      cases d with
      | alternative h => cases h
      | program each => exact ⟨_, each, rfl, rfl, by simp [atEnd]⟩

theorem reads_program (room : Nat) :
    Reads room (program room) fun w rest es => Derives (.program es) w ∧ rest.atEnd = true :=
  reads_wholeText (reads_expression room .any)

end Parser

/-! ### Programs -/

section Programs

variable {room : Nat} {ts : Tokens} {es es' : List Expr}

theorem parseWithin_eq_ok_iff :
    parseWithin room ts = .ok es ↔ ∃ rest, Parser.program room ts = .ok (es, rest) := by
  cases hr : Parser.program room ts with
  | ok r => simp [parseWithin, hr, Except.map, Prod.ext_iff]
  | error stop => simp [parseWithin, hr, Except.map]

theorem parseWithin_eq_error_iff {stop : ParseStop} :
    parseWithin room ts = .error stop ↔ Parser.program room ts = .error stop := by
  cases hr : Parser.program room ts <;> simp [parseWithin, hr, Except.map]

/-- There is room enough for the expressions of a program that has fewer tokens. -/
theorem parseWithin_ne_tooDeep (h : ts.ahead.length < room) :
    parseWithin room ts ≠ .error .tooDeep :=
  fun hp => (Parser.reads_program room).calm h (parseWithin_eq_error_iff.1 hp)

theorem derives_of_parseWithin (noEnd : ∀ t ∈ ts.ahead, t.kind ≠ .eof)
    (h : parseWithin room ts = .ok es) : Derives (.program es) ts.ahead := by
  obtain ⟨rest, hr⟩ := parseWithin_eq_ok_iff.1 h
  obtain ⟨w, rfl, d, atEnd⟩ := (Parser.reads_program room).sound hr
  -- The parser stops where a token ends the text, and only the last one does.
  have : rest.ahead = [] := by
    cases ha : rest.ahead with
    | nil => rfl
    | cons t ahead =>
      refine absurd ?_ (noEnd t (by simp [ha]))
      simpa [Tokens.atEnd, Tokens.current, ha] using atEnd
  rwa [Tokens.ahead_prepend, this, List.append_nil]

theorem parseWithin_of_derives (d : Derives (.program es) ts.ahead) :
    parseWithin room ts = .ok es ∨ parseWithin room ts = .error .tooDeep := by
  -- All of the tokens are taken, so that only the last one is left.
  let rest : Tokens := { ts with ahead := [] }
  have hts : rest.prepend ts.ahead = ts := by simp [rest, Tokens.prepend]
  have atEnd : rest.atEnd = true := Tokens.atEnd_of_ahead_eq_nil rfl
  have := (Parser.reads_program room).complete rest ⟨d, atEnd⟩
  rw [hts] at this
  exact this.imp (fun h => parseWithin_eq_ok_iff.2 ⟨rest, h⟩) parseWithin_eq_error_iff.2

/-- No tokens are a program with two trees. -/
theorem derives_unique (d : Derives (.program es) ts.ahead) (d' : Derives (.program es') ts.ahead) :
    es = es' := by
  have calm := parseWithin_ne_tooDeep (Nat.lt_succ_self ts.ahead.length)
  have h := (parseWithin_of_derives d).resolve_right calm
  have h' := (parseWithin_of_derives d').resolve_right calm
  rw [h] at h'
  exact Except.ok.inj h'

/-- **The parser accepts exactly the programs of the grammar and builds their trees.**  As long as
expressions are not nested too deeply for the room there is, tokens are parsed into `es` if and only
if they derive as a program with the trees `es`, and they are refused for a violation if and only if
they do not derive at all.  They never derive with two different trees, and for fewer tokens than
there is room for, nothing is nested too deeply. -/
theorem parseWithin_eq_ok_iff_derives (room : Nat) (ts : Tokens)
    (noEnd : ∀ t ∈ ts.ahead, t.kind ≠ .eof) :
    (parseWithin room ts ≠ .error .tooDeep →
      (∀ es, parseWithin room ts = .ok es ↔ Derives (.program es) ts.ahead) ∧
      ((∃ e, parseWithin room ts = .error (.error e)) ↔ ¬ ∃ es, Derives (.program es) ts.ahead)) ∧
    (∀ es es', Derives (.program es) ts.ahead → Derives (.program es') ts.ahead → es = es') ∧
    (ts.ahead.length < room → parseWithin room ts ≠ .error .tooDeep) := by
  refine ⟨fun shallow => ?_, fun _ _ => derives_unique, parseWithin_ne_tooDeep⟩
  have accepts (es : List Expr) : parseWithin room ts = .ok es ↔ Derives (.program es) ts.ahead :=
    ⟨derives_of_parseWithin noEnd, fun d => (parseWithin_of_derives d).resolve_right shallow⟩
  refine ⟨accepts, ?_, fun none => ?_⟩
  · rintro ⟨e, he⟩ ⟨es, d⟩
    rw [(accepts es).2 d] at he
    cases he
  · match h : parseWithin room ts with
    | .ok es => exact absurd ⟨es, (accepts es).1 h⟩ none
    | .error (.error e) => exact ⟨e, rfl⟩
    | .error .tooDeep => exact absurd h shallow

end Programs

theorem parse_sum_of_three :
    let token (k : Kind) (lexeme : String) : Token := ⟨k, lexeme, .null, 1, 1⟩
    let sum := token .plus "+"
    let a := token .identifier "a"
    let b := token .identifier "b"
    let c := token .identifier "c"
    let ts : Tokens := ⟨[token .lparen "(", sum, a, b, c, token .rparen ")"], token .eof "", rfl⟩
    let es : List Expr :=
      [.binary sum (.binary sum (.identifier a) (.identifier b)) (.identifier c)]
    (∀ t ∈ ts.ahead, t.kind ≠ .eof) ∧ parse ts ≠ .error .tooDeep ∧ parse ts = .ok es ∧
      Derives (.program es) ts.ahead := by
  intro token sum a b c ts es
  have noEnd : ∀ t ∈ ts.ahead, t.kind ≠ .eof := by decide
  have parsed : parse ts = .ok es := rfl
  obtain ⟨exact', -, shallow⟩ := parseWithin_eq_ok_iff_derives depthLimit ts noEnd
  have shallow := shallow (by decide)
  exact ⟨noEnd, shallow, parsed, ((exact' shallow).1 es).1 parsed⟩

end Lisplet
