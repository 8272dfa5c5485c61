import Lisplet.Parse.Expression
import Lisplet.Proofs.Grammar.Reading

/-!
# What the parsers of forms read

Given that a parser `p` reads just the expressions of the grammar, each parser of a form reads just
what the grammar allows behind the head of that form.
-/

namespace Lisplet.Parser

open Grammar

variable {n : Nat} {p : Parser Expr} {opening head : Token}

theorem parenthesized_iff {v w : List Token} (ho : opening.kind = .lparen) :
    Parenthesized v (opening :: w) ↔ ∃ closing : Token, closing.kind = .rparen ∧
      w = v ++ [closing] := by
  constructor
  · rintro ⟨o, closing, -, hc, h⟩
    exact ⟨closing, hc, (List.cons.inj h).2⟩
  · rintro ⟨closing, hc, rfl⟩
    exact ⟨opening, closing, ho, hc, rfl⟩

theorem exists_prepend_of_opens {kind : Kind} {ts : Tokens} (hk : kind ≠ .eof)
    (h : opens kind ts = true) : ∃ (opening head : Token) (rest : Tokens),
      ts = rest.prepend [opening, head] ∧ opening.kind = .lparen ∧ head.kind = kind := by
  simp only [opens, Bool.and_eq_true, beq_iff_eq] at h
  have h₁ : ts.current.kind ≠ .eof := by simp [h.1]
  have h₂ : ts.following.kind ≠ .eof := by rwa [h.2]
  obtain ⟨rest, hr⟩ := Tokens.exists_eq_prepend h₁ h₂
  exact ⟨ts.current, ts.following, rest, hr, h⟩

/-- The tokens of a form's head are read before what is inside. -/
theorem head_bind {β : Type} (f : Token → Parser β) (rest : Tokens) (ho : opening.kind ≠ .eof)
    (hh : head.kind ≠ .eof) :
    (next >>= fun _ => next >>= f) (rest.prepend [opening, head]) = f head rest := by
  change f ((rest.prepend [opening, head]).advance).current
    (rest.prepend [opening, head]).advance.advance = _
  rw [Tokens.advance_prepend_cons ho, Tokens.advance_prepend_cons hh]
  rfl

theorem derives_literal_iff {e : Expr} {w : List Token} :
    Derives (.literal e) w ↔ ∃ t : Token, single? t = some e ∧ w = [t] := by
  constructor
  · intro d
    cases d with
    | alternative h => cases h
    | @constant t kind => exact ⟨t, by rcases kind with h | h <;> simp [single?, h], rfl⟩
    | @identifier t kind | @trueWord t kind | @falseWord t kind | @nullWord t kind =>
      exact ⟨t, by simp [single?, kind], rfl⟩
  · rintro ⟨t, h, rfl⟩
    unfold single? at h
    split at h <;> cases h
    · exact .constant (.inl ‹_›)
    · exact .constant (.inr ‹_›)
    · exact .identifier ‹_›
    · exact .trueWord ‹_›
    · exact .falseWord ‹_›
    · exact .nullWord ‹_›

theorem ne_eof_of_single? {t : Token} {e : Expr} (h : single? t = some e) : t.kind ≠ .eof := by
  intro hk
  simp [single?, hk] at h

theorem derives_signed_iff {e : Expr} {w : List Token} :
    Derives (.signed e) w ↔ ∃ (sign : Token) (right : Expr) (v : List Token),
      sign.kind.isSign = true ∧ (∀ t ∈ v.head?, t.kind.isSign = false) ∧
        Derives (.expression right) v ∧ w = sign :: v ∧ e = .unary sign right := by
  have isSign (k : Kind) : k.isSign = true ↔ k = .plus ∨ k = .minus := by
    cases k <;> simp [Kind.isSign]
  have noSign (k : Kind) : k.isSign = false ↔ k ≠ .plus ∧ k ≠ .minus := by
    cases k <;> simp [Kind.isSign]
  constructor
  · intro d
    cases d with
    | alternative h => cases h
    | @signed sign right v kind single d =>
      exact ⟨sign, right, v, (isSign _).2 kind, fun t ht => (noSign _).2 (single t ht), d, rfl, rfl⟩
  · rintro ⟨sign, right, v, kind, single, d, rfl, rfl⟩
    exact .signed ((isSign _).1 kind) (fun t ht => (noSign _).1 (single t ht)) d

namespace Reads

variable {α β : Type} {q : Parser α} {R : List Token → Tokens → α → Prop}

/-! ### Bodies and closing parentheses -/

theorem close (form : String) :
    Reads n (close form) fun w _ _ => ∃ t : Token, t.kind = .rparen ∧ w = [t] :=
  ((expect (by decide)).bind fun _ => pure ()).congr fun w rest _ => by
    constructor
    · rintro ⟨u, v, t, rfl, ⟨rfl, ht⟩, rfl, -⟩
      exact ⟨t, ht, rfl⟩
    · rintro ⟨t, ht, rfl⟩
      exact ⟨[t], [], t, rfl, ⟨rfl, ht⟩, rfl, rfl⟩

/-- A parser, a closing parenthesis, and what comes after it. -/
theorem closed {f : α → Parser β} {S : α → List Token → Tokens → β → Prop} (hq : Reads n q R)
    (form : String) (hf : ∀ a, Reads n (f a) (S a)) :
    Reads n (q >>= fun a => Parser.close form >>= fun _ => f a) fun w rest b =>
      ∃ u closing v a, w = u ++ closing :: v ∧ closing.kind = .rparen ∧
        R u (rest.prepend (closing :: v)) a ∧ S a v rest b :=
  (hq.bind fun a => (close form).bind fun _ => hf a).congr fun w rest b => by
    constructor
    · rintro ⟨u, -, a, rfl, hu, -, v, -, rfl, ⟨closing, hc, rfl⟩, hv⟩
      exact ⟨u, closing, v, a, rfl, hc, hu, hv⟩
    · rintro ⟨u, closing, v, a, rfl, hc, hu, hv⟩
      exact ⟨u, closing :: v, a, rfl, hu, [closing], v, (), rfl, ⟨closing, hc, rfl⟩, hv⟩

theorem startsExpression_prepend {d : Phrase} {w : List Token} (h : Derives d w) (solid : d.IsSolid)
    (rest : Tokens) : w ≠ [] ∧ startsExpression (rest.prepend w) = true := by
  obtain ⟨t, v, rfl, ht⟩ := h.starts solid
  exact ⟨by simp, ht⟩

theorem startsExpression_of_ahead_eq_nil {ts : Tokens} (h : ts.ahead = []) :
    startsExpression ts = false := by
  simp [startsExpression, Tokens.current, h, ts.last_kind, Kind.startsExpression]

theorem startsExpression_eq_false {closing : Token} (hc : closing.kind = .rparen)
    (v : List Token) (rest : Tokens) : startsExpression (rest.prepend (closing :: v)) = false := by
  simp [startsExpression, hc, Kind.startsExpression]

theorem body (hp : Reads n p fun w _ e => Derives (.expression e) w) :
    Reads n (body p) fun w rest es => Derives (.body es) w ∧ startsExpression rest = false :=
  (many hp (fun rest d => startsExpression_prepend d trivial rest)
    startsExpression_of_ahead_eq_nil).congr fun w rest es => by
    constructor
    · rintro ⟨parts, each, rfl, rfl, hr⟩
      exact ⟨.body each, hr⟩
    · rintro ⟨d, hr⟩
      cases d with
      | alternative h => cases h
      | body each => exact ⟨_, each, rfl, rfl, hr⟩

/-- A body ends where a parenthesis closes. -/
theorem closedBody {f : List Expr → Parser β} {S : List Expr → List Token → Tokens → β → Prop}
    (hp : Reads n p fun w _ e => Derives (.expression e) w) (form : String)
    (hf : ∀ es, Reads n (f es) (S es)) :
    Reads n (Parser.body p >>= fun es => Parser.close form >>= fun _ => f es) fun w rest b =>
      ∃ u closing v es, w = u ++ closing :: v ∧ closing.kind = .rparen ∧ Derives (.body es) u ∧
        S es v rest b :=
  ((body hp).closed form hf).congr fun w rest b => by
    constructor
    · rintro ⟨u, closing, v, es, rfl, hc, ⟨d, -⟩, hv⟩
      exact ⟨u, closing, v, es, rfl, hc, d, hv⟩
    · rintro ⟨u, closing, v, es, rfl, hc, d, hv⟩
      exact ⟨u, closing, v, es, rfl, hc, ⟨d, startsExpression_eq_false hc v rest⟩, hv⟩

/-! ### Operators -/

theorem operands (o : Operation) (ho : opening.kind = .lparen) (operator : head.kind ∈ o.operators)
    (hp : Reads n p fun w _ e => Derives (o.operand e) w) :
    Reads n (operands (o.node head) p head) fun w _ e =>
      Derives (.operation o e) (opening :: head :: w) :=
  (hp.bind fun first => hp.bind fun second =>
    (many hp (fun rest d => startsExpression_prepend d (by cases o <;> trivial) rest)
      startsExpression_of_ahead_eq_nil).closed head.lexeme fun others => pure _).congr
    fun w rest e => by
    constructor
    · rintro ⟨u, -, first, rfl, left, v, -, second, rfl, right, -, closing, -, -, rfl, hc,
        ⟨parts, each, rfl, rfl, -⟩, rfl, rfl⟩
      exact .operation operator left right each ((parenthesized_iff ho).2 ⟨closing, hc, by simp⟩)
    · intro d
      cases d with
      | alternative h => cases h
      | @operation _ _ first second u v _ parts _ left right each form =>
        obtain ⟨closing, hc, h⟩ := (parenthesized_iff ho).1 form
        obtain ⟨rfl, rfl⟩ := List.cons.inj h
        exact ⟨u, _, first, by simp, left, v, _, second, rfl, right, words parts, closing, [],
          trees parts, rfl, hc, ⟨parts, each, rfl, rfl, startsExpression_eq_false hc _ rest⟩,
          rfl, rfl⟩

theorem predicate (ho : opening.kind = .lparen)
    (operator : head.kind = .notWord ∨ head.kind = .isTrue)
    (hp : Reads n p fun w _ e => Derives (.expression e) w) :
    Reads n (predicate p head) fun w _ e => Derives (.predicate e) (opening :: head :: w) :=
  (hp.closed head.lexeme fun _ => pure _).congr fun w rest e => by
    constructor
    · rintro ⟨u, closing, -, e, rfl, hc, right, rfl, rfl⟩
      exact .predicate operator right ((parenthesized_iff ho).2 ⟨closing, hc, rfl⟩)
    · intro d
      cases d with
      | alternative h => cases h
      | @predicate _ e v _ _ right form =>
        obtain ⟨closing, hc, h⟩ := (parenthesized_iff ho).1 form
        obtain ⟨rfl, rfl⟩ := List.cons.inj h
        exact ⟨v, closing, [], e, rfl, hc, right, rfl, rfl⟩

theorem printed (ho : opening.kind = .lparen)
    (operator : head.kind = .print ∨ head.kind = .println)
    (hp : Reads n p fun w _ e => Derives (.expression e) w) :
    Reads n (printed p head) fun w _ e => Derives (.print e) (opening :: head :: w) :=
  (hp.closedBody head.lexeme fun _ => pure _).congr fun w rest e => by
    constructor
    · rintro ⟨u, closing, -, es, rfl, hc, body, rfl, rfl⟩
      exact .print operator body ((parenthesized_iff ho).2 ⟨closing, hc, rfl⟩)
    · intro d
      cases d with
      | alternative h => cases h
      | @print _ es v _ _ body form =>
        obtain ⟨closing, hc, h⟩ := (parenthesized_iff ho).1 form
        obtain ⟨rfl, rfl⟩ := List.cons.inj h
        exact ⟨v, closing, [], es, rfl, hc, body, rfl, rfl⟩

/-! ### Bindings -/

theorem failed (problem : ParseProblem) (t : Token) (f : α → Parser β) :
    Reads n (Parser.fail problem t >>= f) fun _ _ _ => False where
  sound h := by cases h
  complete _ _ h := h.elim
  calm _ h := by cases h

theorem binding (hp : Reads n p fun w _ e => Derives (.expression e) w) :
    Reads n (binding p) fun w _ b => Derives (.binding b) w :=
  (current.bind fun t => ite (fun _ => failed _ t _) fun _ =>
    (expect (by decide)).bind fun name => current.bind fun t =>
      ite (fun _ => hp.bind fun e => pure (Binding.mk name e)) fun _ => fail _ t).congr
    fun w rest b => by
    constructor
    · rintro ⟨-, -, -, rfl, ⟨rfl, -⟩, ⟨-, h⟩ | ⟨-, -, -, name, rfl, ⟨rfl, kind⟩,
        -, -, -, rfl, ⟨rfl, -⟩, ⟨-, v, -, e, rfl, value, rfl, rfl⟩ | ⟨-, h⟩⟩⟩
      · exact h.elim
      · simpa using .binding kind value
      · exact h.elim
    · intro d
      cases d with
      | alternative h => cases h
      | @binding name e v kind value =>
        obtain ⟨t, v, rfl, ht⟩ := value.starts trivial
        refine ⟨[], _, _, rfl, ⟨rfl, rfl⟩, .inr ⟨by simp [kind], [name], _, name, rfl, ⟨rfl, kind⟩,
          [], _, _, rfl, ⟨rfl, rfl⟩, .inl ⟨?_, t :: v, [], e, by simp, value, rfl, rfl⟩⟩⟩
        exact ht

/-- A list of bindings goes on where a binding stands. -/
theorem binding_prepend {b : Binding Expr} {w : List Token} (d : Derives (.binding b) w)
    (rest : Tokens) : w ≠ [] ∧
      ((rest.prepend w).current.kind != .rbracket && !(rest.prepend w).atEnd) = true := by
  cases d with
  | alternative h => cases h
  | binding kind => simp [kind, Tokens.atEnd_eq_false]

/-- The bindings of a list with its closing bracket; the end of the text ends a list as well. -/
theorem bindings (hp : Reads n p fun w _ e => Derives (.expression e) w) :
    Reads n (bindings p) fun w rest bs => ∃ parts : List (List Token × Binding Expr),
      (∀ x ∈ parts, Derives (.binding x.2) x.1) ∧ bs = trees parts ∧
        ((∃ closing : Token, closing.kind = .rbracket ∧ w = words parts ++ [closing]) ∨
          (w = words parts ∧ rest.atEnd = true)) :=
  ((many (binding hp) (fun rest d => binding_prepend d rest) fun h => by
      simp [Tokens.atEnd_of_ahead_eq_nil h]).bind fun found => current.bind fun t =>
    ite (fun _ => next.bind fun _ => pure found) fun _ => pure found).congr fun w rest bs => by
    constructor
    · rintro ⟨-, v, -, rfl, ⟨parts, each, rfl, rfl, stop⟩, -, v, -, rfl, ⟨rfl, rfl⟩,
        ⟨kind, -, -, t, rfl, ⟨rfl, -⟩ | ⟨rfl, -, atEnd⟩, rfl, rfl⟩ | ⟨kind, rfl, rfl⟩⟩
      · exact ⟨parts, each, rfl, .inl ⟨t, kind, rfl⟩⟩
      · simp only [Tokens.atEnd, beq_iff_eq] at atEnd
        exact absurd (atEnd.symm.trans kind) (by decide)
      · simp only [List.nil_append, Tokens.prepend_nil] at kind stop
        exact ⟨parts, each, rfl, .inr ⟨by simp, by simpa [kind] using stop⟩⟩
    · rintro ⟨parts, each, rfl, ⟨closing, hc, rfl⟩ | ⟨rfl, atEnd⟩⟩
      · refine ⟨words parts, [closing], trees parts, rfl, ⟨parts, each, rfl, rfl, ?_⟩,
          [], [closing], closing, rfl, ⟨rfl, rfl⟩,
          .inl ⟨hc, [closing], [], closing, rfl, .inl ⟨rfl, ?_⟩, rfl, rfl⟩⟩
        · simp [hc]
        · simp [hc]
      · refine ⟨words parts, [], trees parts, by simp, ⟨parts, each, rfl, rfl, ?_⟩, [], [],
          rest.current, rfl, ⟨rfl, rfl⟩, .inr ⟨?_, rfl, rfl⟩⟩
        · simp [atEnd]
        · simp only [Tokens.atEnd, beq_iff_eq] at atEnd
          simp [atEnd]

theorem atEnd_eq_false_of_body {es : List Expr} {v x : List Token} {closing : Token}
    (d : Derives (.body es) v) (hc : closing.kind = .rparen) (rest : Tokens) :
    (rest.prepend (v ++ closing :: x)).atEnd = false := by
  cases d with
  | alternative h => cases h
  | @body parts each =>
    cases parts with
    | nil => exact Tokens.atEnd_eq_false (by simp [hc])
    | cons y parts =>
      obtain ⟨t, v, hy, ht⟩ := (each y List.mem_cons_self).starts trivial
      rw [words_cons, hy]
      exact Tokens.atEnd_eq_false fun h => by rw [h] at ht; cases ht

theorem letIn (ho : opening.kind = .lparen) (operator : head.kind = .letWord)
    (hp : Reads n p fun w _ e => Derives (.expression e) w) :
    Reads n (letIn p) fun w _ e => Derives (.letIn e) (opening :: head :: w) :=
  ((expect (by decide)).bind fun _ => current.bind fun t =>
    ite (fun _ => (bindings hp).bind fun bs =>
        hp.closedBody "let" fun es => pure (Expr.letIn bs es))
      fun _ => fail _ t).congr fun w rest e => by
    constructor
    · rintro ⟨-, -, bracket, rfl, ⟨rfl, opens⟩, -, -, -, rfl, ⟨rfl, rfl⟩,
        ⟨kind, u, -, -, rfl, ⟨parts, each, rfl, ends⟩, v, closing, -, es, rfl, hc, body, rfl, rfl⟩ |
        ⟨-, h⟩⟩
      · rcases ends with ⟨close, closes, rfl⟩ | ⟨rfl, atEnd⟩
        · have some : parts ≠ [] := by
            rintro rfl
            exact absurd (closes.symm.trans kind) (by decide)
          exact .letIn operator opens some each closes body
            ((parenthesized_iff ho).2 ⟨closing, hc, by simp⟩)
        · -- A list that the end of the text ends has no form around it that could be closed.
          simp [atEnd_eq_false_of_body body hc] at atEnd
      · exact h.elim
    · intro d
      cases d with
      | alternative h => cases h
      | @letIn _ bracket close parts es v _ _ opens some each closes body form =>
        obtain ⟨closing, hc, h⟩ := (parenthesized_iff ho).1 form
        obtain ⟨rfl, rfl⟩ := List.cons.inj h
        refine ⟨[bracket], words parts ++ close :: (v ++ [closing]), bracket, by simp, ⟨rfl, opens⟩,
          [], _, _, rfl, ⟨rfl, rfl⟩,
          .inl ⟨?_, words parts ++ [close], v ++ [closing], trees parts, by simp,
            ⟨parts, each, rfl, .inl ⟨close, closes, rfl⟩⟩,
            v, closing, [], es, rfl, hc, body, rfl, rfl⟩⟩
        -- The parser looks for a name behind the bracket: the first binding begins with one.
        obtain ⟨x, parts, rfl⟩ := List.exists_cons_of_ne_nil some
        have d := each x List.mem_cons_self
        generalize hx : x.1 = u at d
        generalize x.2 = b at d
        cases d with
        | alternative h => cases h
        | binding kind => simp [hx, kind]

/-! ### Branches -/

/-- Where an else opens, its two tokens are read before what is inside. -/
theorem elseBody_of_opens (ho : opening.kind = .lparen) (hh : head.kind = .elseWord)
    (rest : Tokens) : Parser.elseBody p (rest.prepend [opening, head]) =
      (Parser.body p >>= fun es => Parser.close "else" >>= fun _ => Pure.pure (some es)) rest := by
  have : opens .elseWord (rest.prepend [opening, head]) = true := by simp [opens, ho, hh]
  rw [Parser.elseBody, if_pos this]
  exact head_bind _ rest (by simp [ho]) (by simp [hh])

/-- The body of an else, or none where no else opens. -/
theorem elseBody (hp : Reads n p fun w _ e => Derives (.expression e) w) :
    Reads n (elseBody p) fun w rest es =>
      Derives (.otherwise es) w ∧ (es = none → opens .elseWord rest = false) := by
  have inside := hp.closedBody "else" fun es => pure (some es)
  refine ⟨fun {ts rest es} h => ?_, ?_, fun {ts} hn h => ?_⟩
  · cases ho : opens .elseWord ts with
    | false =>
      rw [Parser.elseBody, ho] at h
      cases h
      exact ⟨[], rfl, .elseAbsent, fun _ => ho⟩
    | true =>
      obtain ⟨opening, head, ts, rfl, hl, hh⟩ := exists_prepend_of_opens (by decide) ho
      rw [elseBody_of_opens hl hh] at h
      obtain ⟨-, rfl, u, closing, -, es, rfl, hc, body, rfl, rfl⟩ := inside.sound h
      exact ⟨_, Tokens.prepend_prepend, .elseBody hh body ⟨opening, closing, hl, hc, rfl⟩, nofun⟩
  · rintro w rest es ⟨d, hr⟩
    cases d with
    | alternative h => cases h
    | elseAbsent =>
      left
      rw [Tokens.prepend_nil, Parser.elseBody, hr rfl]
      rfl
    | @elseBody head es v _ hh body form =>
      obtain ⟨opening, closing, ho, hc, rfl⟩ := form
      have := inside.complete rest ⟨v, closing, [], es, rfl, hc, body, rfl, rfl⟩
      rwa [← elseBody_of_opens ho hh, Tokens.prepend_prepend] at this
  · cases ho : opens .elseWord ts with
    | false =>
      rw [Parser.elseBody, ho] at h
      cases h
    | true =>
      obtain ⟨opening, head, ts, rfl, hl, hh⟩ := exists_prepend_of_opens (by decide) ho
      rw [elseBody_of_opens hl hh] at h
      simp only [Tokens.ahead_prepend, List.length_append] at hn
      exact inside.calm (by omega) h

theorem opens_eq_false {closing : Token} (hc : closing.kind = .rparen) (kind : Kind)
    (v : List Token) (rest : Tokens) : opens kind (rest.prepend (closing :: v)) = false := by
  simp [opens, hc]

theorem ifThen (ho : opening.kind = .lparen) (operator : head.kind = .ifWord)
    (hp : Reads n p fun w _ e => Derives (.expression e) w) :
    Reads n (ifThen p) fun w _ e => Derives (.ifThen e) (opening :: head :: w) :=
  (hp.bind fun condition => (expect (by decide)).bind fun _ => (expect (by decide)).bind fun _ =>
    hp.closedBody "then" fun thenBody => (elseBody hp).closed "if" fun otherwise =>
      pure (Expr.ifThen condition thenBody otherwise)).congr fun w rest e => by
    constructor
    · rintro ⟨u, -, condition, rfl, hu, -, -, thenOpening, rfl, ⟨rfl, hto⟩, -, -, thenHead, rfl,
        ⟨rfl, hth⟩, v, thenClosing, -, thenBody, rfl, htc, body, x, closing, -, otherwise, rfl, hc,
        ⟨hx, -⟩, rfl, rfl⟩
      exact .ifThen operator hu hth body ⟨thenOpening, thenClosing, hto, htc, rfl⟩ hx
        ((parenthesized_iff ho).2 ⟨closing, hc, by simp⟩)
    · intro d
      cases d with
      | alternative h => cases h
      | @ifThen _ thenHead condition thenBody otherwise u v _ x _ _ hu hth body thenForm hx form =>
        obtain ⟨closing, hc, h⟩ := (parenthesized_iff ho).1 form
        obtain ⟨rfl, rfl⟩ := List.cons.inj h
        obtain ⟨thenOpening, thenClosing, hto, htc, rfl⟩ := thenForm
        exact ⟨u, _, condition, by simp, hu, [thenOpening], _, thenOpening, rfl, ⟨rfl, hto⟩,
          [thenHead], v ++ thenClosing :: (x ++ [closing]), thenHead, rfl, ⟨rfl, hth⟩,
          v, thenClosing, x ++ [closing], thenBody, rfl, htc, body, x, closing, [], otherwise, rfl,
          hc, ⟨hx, fun _ => opens_eq_false hc _ _ rest⟩, rfl, rfl⟩

theorem clause (hp : Reads n p fun w _ e => Derives (.expression e) w) :
    Reads n (clause p) fun w _ c => Derives (.clause c) w :=
  ((expect (by decide)).bind fun _ => current.bind fun t =>
    ite (fun _ => hp.bind fun condition => hp.closedBody "" fun es => pure (Clause.mk condition es))
      fun _ => fail _ t).congr fun w rest c => by
    constructor
    · rintro ⟨-, -, opening, rfl, ⟨rfl, ho⟩, -, -, -, rfl, ⟨rfl, rfl⟩,
        ⟨-, u, -, condition, rfl, hu, v, closing, -, es, rfl, hc, body, rfl, rfl⟩ | ⟨-, h⟩⟩
      · exact .clause hu body ⟨opening, closing, ho, hc, by simp⟩
      · exact h.elim
    · intro d
      cases d with
      | alternative h => cases h
      | @clause condition es u v _ hu body form =>
        obtain ⟨opening, closing, ho, hc, rfl⟩ := form
        obtain ⟨-, starts⟩ := startsExpression_prepend hu trivial (rest.prepend (v ++ [closing]))
        rw [Tokens.prepend_prepend] at starts
        exact ⟨[opening], u ++ (v ++ [closing]), opening, by simp, ⟨rfl, ho⟩, [], _, _, rfl,
          ⟨rfl, rfl⟩, .inl ⟨starts, u, v ++ [closing], condition, rfl, hu, v, closing, [], es, rfl,
            hc, body, rfl, rfl⟩⟩

/-- No clause is taken for an else. -/
theorem clause_prepend {c : Clause Expr} {w : List Token} (d : Derives (.clause c) w)
    (rest : Tokens) : w ≠ [] ∧
      (startsExpression (rest.prepend w) && !opens .elseWord (rest.prepend w)) = true := by
  obtain ⟨ne, starts⟩ := startsExpression_prepend d trivial rest
  refine ⟨ne, ?_⟩
  simp only [starts, Bool.true_and, Bool.not_eq_true']
  cases d with
  | alternative h => cases h
  | @clause condition es u v _ hu body form =>
    obtain ⟨opening, closing, -, -, rfl⟩ := form
    obtain ⟨t, u, rfl, ht⟩ := hu.starts trivial
    have : t.kind ≠ .elseWord := fun h => by rw [h] at ht; cases ht
    simp [opens, this]

theorem cond (ho : opening.kind = .lparen) (operator : head.kind = .condWord)
    (hp : Reads n p fun w _ e => Derives (.expression e) w) :
    Reads n (cond p) fun w _ e => Derives (.cond e) (opening :: head :: w) :=
  ((many (clause hp) (fun rest d => clause_prepend d rest) fun h => by
      simp [startsExpression_of_ahead_eq_nil h]).bind fun clauses =>
    ite (fun _ => current.bind fun t => failed _ t _) fun _ =>
      (elseBody hp).closed "cond" fun otherwise => pure (Expr.cond clauses otherwise)).congr
    fun w rest e => by
    constructor
    · rintro ⟨-, -, -, rfl, ⟨parts, each, rfl, rfl, -⟩, ⟨-, -, -, -, -, -, h⟩ |
        ⟨some, x, closing, -, otherwise, rfl, hc, ⟨hx, -⟩, rfl, rfl⟩⟩
      · exact h.elim
      · exact .cond operator (by rintro rfl; exact some rfl) each hx
          ((parenthesized_iff ho).2 ⟨closing, hc, by simp⟩)
    · intro d
      cases d with
      | alternative h => cases h
      | @cond _ parts otherwise x _ _ some each hx form =>
        obtain ⟨closing, hc, h⟩ := (parenthesized_iff ho).1 form
        obtain ⟨rfl, rfl⟩ := List.cons.inj h
        refine ⟨words parts, x ++ [closing], trees parts, by simp, ⟨parts, each, rfl, rfl, ?_⟩,
          .inr ⟨by simpa [trees] using some, x, closing, [], otherwise, rfl, hc,
            ⟨hx, fun _ => opens_eq_false hc _ _ rest⟩, rfl, rfl⟩⟩
        -- No clause begins behind the last one: an else does, or the form is closed.
        cases hx with
        | alternative h => cases h
        | elseAbsent => simp [startsExpression, hc, Kind.startsExpression]
        | elseBody hh _ form =>
          obtain ⟨opening, closing, ho, -, rfl⟩ := form
          simp [opens, ho, hh]

/-! ### Literals and signs -/

theorem noExpression : Reads n noExpression fun _ _ _ => False :=
  (current.bind fun _ => (following).bind fun _ => ite (fun _ => fail _ _) fun _ =>
    ite (fun _ => fail _ _) fun _ => ite (fun _ => fail _ _) fun _ => fail _ _).congr
    fun w rest e => by simp

theorem atom : Reads n atom fun w _ e => Derives (.literal e) w := by
  refine (current.bind (S := fun t w rest e => single? t = some e ∧ ∃ t',
    (w = [t'] ∧ t'.kind ≠ .eof) ∨ (w = [] ∧ t' = rest.current ∧ rest.atEnd = true))
    fun t => ?_).congr fun w rest e => ?_
  · cases hs : single? t with
    | some e =>
      refine (next.bind fun _ => pure e).congr fun w rest e' => ?_
      constructor
      · rintro ⟨u, -, t', rfl, h, rfl, rfl⟩
        simpa using ⟨t', h⟩
      · rintro ⟨h, t', h'⟩
        cases h
        exact ⟨w, [], t', by simp, h', rfl, rfl⟩
    | none => exact noExpression.congr fun w rest e => by simp
  · rw [derives_literal_iff]
    constructor
    · rintro ⟨-, v, t, rfl, ⟨rfl, rfl⟩, hs, t', ⟨rfl, -⟩ | ⟨rfl, rfl, atEnd⟩⟩
      · exact ⟨t', hs, rfl⟩
      · exact absurd (by simpa [Tokens.atEnd] using atEnd) (ne_eof_of_single? hs)
    · rintro ⟨t, hs, rfl⟩
      exact ⟨[], [t], t, rfl, ⟨rfl, rfl⟩, hs, t, .inl ⟨rfl, ne_eof_of_single? hs⟩⟩

/-! ### Forms by their heads -/

/-- Behind the head of a form stands what the grammar asks for, if all levels are read. -/
theorem inside {expression : Level → Parser Expr} {form : Form}
    (hp : ∀ level, Reads n (expression level) fun w _ e => Derives (phraseAt level e) w)
    (ho : opening.kind = .lparen) (hf : Form.ofHead? head.kind = some form) :
    Reads n (inside expression form head) fun w _ e =>
      Derives (phraseOf form e) (opening :: head :: w) := by
  have heads := ofHead?_eq_some_iff.1 hf
  cases form with
  | letIn => exact letIn ho (by simpa [headsOf] using heads) (hp .any)
  | print => exact printed ho (by simpa [headsOf] using heads) (hp .any)
  | ifThen => exact ifThen ho (by simpa [headsOf] using heads) (hp .any)
  | cond => exact cond ho (by simpa [headsOf] using heads) (hp .any)
  | logical => exact operands .logical ho heads (hp .any)
  | equality => exact operands .equality ho heads (hp .comparison)
  | comparison =>
    exact operands .comparison ho heads
      ((hp .operand).congr fun _ _ _ => derives_binary_iff.symm)
  | arithmetic => exact operands .arithmetic ho heads (hp .operand)
  | predicate => exact predicate ho (by simpa [headsOf] using heads) (hp .any)

end Reads

end Lisplet.Parser
