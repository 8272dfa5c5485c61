import Lisplet.Proofs.Grammar.Forms
import Lisplet.Proofs.Grammar.Prefixes

/-!
# Where a parser stops at a violation

`Parser.Blames f before p ts` says that where the parser `p` stops at a violation in the stream
`ts`, behind the tokens `before` of a phrase of the sort `f`, everything up to there can be
continued to such a phrase.  The violation is told of the token that the parser has come to, but for
one case: where an expression is missing and a name, or a character that belongs to nothing, stands
*behind* that token, the one behind is blamed (`ParseError.BlamesBehind`).  Then the violation is
older than the token it is told of: whatever stands behind the token that the parser has come to,
nothing is read (`Parser.Refuses`).

As for what parsers read, the statements compose along sequences, choices and repetitions, and there
is one for each form.
-/

namespace Lisplet

open Grammar

/-- The violation is told of the token behind the one that the parser has come to, where neither an
expression nor a form begins. -/
structure ParseError.BlamesBehind (e : ParseError) (ts : Tokens) : Prop where
  token : e.token = ts.following
  problem : e.problem = .undefinedIdentifier ∧ ts.following.kind = .identifier ∨
    e.problem = .badToken ∧ ts.following.kind = .unidentified
  noStart : ts.current.kind.startsExpression = false

namespace Tokens

/-- Streams that look the same to a parser that has come to them: of the two tokens that it looks
at, the second one only matters behind an opening parenthesis. -/
structure LooksLike (ts ts' : Tokens) : Prop where
  current : ts.current = ts'.current
  following : ts.current.kind = .lparen → ts.following = ts'.following

theorem LooksLike.prepend {ts ts' : Tokens} (h : ts.LooksLike ts') (w : List Token) :
    (ts.prepend w).LooksLike (ts'.prepend w) := by
  match w with
  | [] => exact h
  | [t] => exact ⟨rfl, fun _ => h.current⟩
  | t :: t' :: w => exact ⟨rfl, fun _ => rfl⟩

end Tokens

/-- Where a violation is told of the token behind, a parser cannot tell apart the streams that have
the same token there. -/
theorem ParseError.BlamesBehind.looksLike {e : ParseError} {ts ts' : Tokens}
    (h : e.BlamesBehind ts) (same : ts'.current = ts.current) (w : List Token) :
    (ts.prepend w).LooksLike (ts'.prepend w) := by
  refine Tokens.LooksLike.prepend ⟨same.symm, fun opening => ?_⟩ w
  have := h.noStart
  rw [opening] at this
  cases this

namespace Parser

variable {α β γ δ : Type} {n m : Nat} {p p' : Parser α} {ts : Tokens} {f : γ → Phrase}
  {g : δ → Phrase} {before : List Token}

theorem startsExpression_eq {s s' : Tokens} (h : s.LooksLike s') :
    startsExpression s = startsExpression s' := by
  simp only [startsExpression, h.current]

theorem opens_eq {kind : Kind} {s s' : Tokens} (h : s.LooksLike s') :
    opens kind s = opens kind s' := by
  rw [opens, opens, ← h.current]
  by_cases hl : s.current.kind = .lparen
  · rw [h.following hl]
  · rw [beq_eq_false_iff_ne.2 hl, Bool.false_and, Bool.false_and]

theorem elseBody_stable {w : List Token} {s s' : Tokens} {es : Option (List Expr)}
    (same : s.LooksLike s')
    (h : Derives (.otherwise es) w ∧ (es = none → opens .elseWord s = false)) :
    Derives (.otherwise es) w ∧ (es = none → opens .elseWord s' = false) :=
  ⟨h.1, fun none => by rw [← opens_eq same, h.2 none]⟩

theorem many_of_stop {more : Tokens → Bool} (h : more ts = false) :
    many more p ts = .ok ([], ts) := by
  rw [many]
  cases ts.ahead.length with
  | zero => rfl
  | succ fuel => rw [manyUpTo_succ, h]; rfl

theorem close_of_atEnd (h : ts.atEnd = true) (form : String) :
    close form ts = .error (.error ⟨ts.current, .close form⟩) := by
  refine bind_error ?_
  change (if ts.current.kind = .rparen then Parser.next else fail (.close form) ts.current) ts = _
  rw [Tokens.atEnd, beq_iff_eq] at h
  rw [if_neg (by rw [h]; decide)]
  rfl

/-- No text that begins with the tokens `u` and goes on with `t` is read. -/
def Refuses (p : Parser α) (u : List Token) (t : Token) : Prop :=
  ∀ rest : Tokens, rest.current = t → ∀ r, p (rest.prepend u) ≠ .ok r

/-- Where the parser `p`, behind the tokens `before` of a phrase, stops at a violation, the tokens
up to there can be continued to such a phrase.  It blames the token that it has come to, or else the
one behind; then what it has come to is a violation, whatever stands behind it.  The parser `p'` is
the same one but with other room for nested expressions: it does not read on either. -/
def Blames (f : γ → Phrase) (before : List Token) (p p' : Parser α) (ts : Tokens) : Prop :=
  ∀ e, p ts = .error (.error e) → ∃ u rest, ts = rest.prepend u ∧ Opens f (before ++ u) ∧
    (e.token = rest.current ∨ e.BlamesBehind rest ∧ Refuses p' u rest.current)

namespace Blames

/-! ### Single steps -/

theorem of_ne_error (h : ∀ e, p ts ≠ .error (.error e)) : Blames f before p p' ts :=
  fun e he => absurd he (h e)

theorem pure (a : α) : Blames f before (pure a) p' ts := of_ne_error fun _ h => by cases h

theorem fail (opens : Opens f before) (problem : ParseProblem) :
    Blames f before (Parser.fail problem ts.current : Parser α) p' ts := by
  intro e h
  cases h
  exact ⟨[], ts, rfl, by rwa [List.append_nil], .inl rfl⟩

theorem expect {p' : Parser Token} (opens : Opens f before) (kind : Kind) (problem : ParseProblem) :
    Blames f before (Parser.expect kind problem) p' ts := by
  intro e h
  change (if ts.current.kind = kind then Parser.next
    else Parser.fail problem ts.current) ts = _ at h
  split at h <;> cases h
  exact ⟨[], ts, rfl, by rwa [List.append_nil], .inl rfl⟩

theorem mono {behind : List Token} (h : Blames g behind p p' ts)
    (lift : ∀ u (rest : Tokens), ts = rest.prepend u → Opens g (behind ++ u) →
      Opens f (before ++ u)) :
    Blames f before p p' ts := by
  intro e he
  obtain ⟨u, rest, rfl, opens, blamed⟩ := h e he
  exact ⟨u, rest, rfl, lift u rest rfl opens, blamed⟩

/-- A phrase that is part of another. -/
theorem part (h : Blames g [] p p' ts) (lift : ∀ u, Opens g u → Opens f (before ++ u)) :
    Blames f before p p' ts :=
  h.mono fun u _ _ => lift u

/-! ### Sequences, choices and repetitions -/

theorem ite {q q' : Parser α} {c : Prop} [Decidable c] (hp : c → Blames f before p p' ts)
    (hq : ¬ c → Blames f before q q' ts) :
    Blames f before (if c then p else q) (if c then p' else q') ts := by
  split
  · exact hp ‹_›
  · exact hq ‹_›

/-- One parser after the other: the second one stands behind what the first has read. -/
theorem bind {R : List Token → Tokens → α → Prop} {k k' : α → Parser β} (reads : Reads n p R)
    (reads' : Reads m p' R) (stable : ∀ {w s s' a}, s.LooksLike s' → R w s a → R w s' a)
    (hp : Blames f before p p' ts)
    (hk : ∀ u rest a, ts = rest.prepend u → R u rest a →
      Blames f (before ++ u) (k a) (k' a) rest) :
    Blames f before (p >>= k) (p' >>= k') ts := by
  intro e he
  rcases bind_eq_error_iff.1 he with stop | ⟨a, between, first, stop⟩
  · obtain ⟨u, rest, rfl, opens, blamed⟩ := hp e stop
    refine ⟨u, rest, rfl, opens, blamed.imp_right fun ⟨behind, refused⟩ => ⟨behind, ?_⟩⟩
    intro rest' same r hr
    obtain ⟨a, between, hr, -⟩ := bind_eq_ok_iff.1 hr
    exact refused rest' same _ hr
  · obtain ⟨u, rfl, read⟩ := reads.sound first
    obtain ⟨v, rest, rfl, opens, blamed⟩ := hk u between a rfl read e stop
    refine ⟨u ++ v, rest, Tokens.prepend_prepend, by rwa [← List.append_assoc],
      blamed.imp_right fun ⟨behind, refused⟩ => ⟨behind, ?_⟩⟩
    intro rest' same r hr
    rw [← Tokens.prepend_prepend] at hr
    rcases reads'.complete _ (stable (behind.looksLike same v) read) with h | h
    · rw [bind_ok h] at hr
      exact refused rest' same r hr
    · rw [bind_error h] at hr
      cases hr

theorem current_bind {k k' : Token → Parser β}
    (hk : Blames f before (k ts.current) (k' ts.current) ts) :
    Blames f before (Parser.current >>= k) (Parser.current >>= k') ts :=
  bind (Reads.current (n := 0)) (Reads.current (n := 0))
    (fun same h => ⟨h.1, h.2.trans same.current⟩) (of_ne_error fun _ h => by cases h) (by
      rintro - ts - rfl ⟨rfl, rfl⟩
      rwa [List.append_nil])

theorem expect_bind {kind : Kind} {problem : ParseProblem} {k k' : Token → Parser β}
    (hk : kind ≠ .eof) (opens : Opens f before)
    (h : ∀ t rest, ts = rest.prepend [t] → t.kind = kind →
      Blames f (before ++ [t]) (k t) (k' t) rest) :
    Blames f before (Parser.expect kind problem >>= k) (Parser.expect kind problem >>= k') ts :=
  bind (Reads.expect (n := 0) hk) (Reads.expect (n := 0) hk) (fun _ => id) (expect opens _ _) (by
    rintro - rest t rfl ⟨rfl, kind⟩
    exact h t rest rfl kind)

theorem fail_bind {problem : ParseProblem} {k : α → Parser β} {q : Parser β}
    (opens : Opens f before) :
    Blames f before (Parser.fail problem ts.current >>= k) q ts := by
  intro e h
  cases h
  exact ⟨[], ts, rfl, by rwa [List.append_nil], .inl rfl⟩

/-- A parser that goes on as another one behind the tokens `w`. -/
theorem behind {q q' : Parser α} (w : List Token) (goesOn : p (ts.prepend w) = q ts)
    (refuses : ∀ u t, Refuses q' u t → Refuses p' (w ++ u) t)
    (h : Blames f (before ++ w) q q' ts) : Blames f before p p' (ts.prepend w) := by
  intro e he
  rw [goesOn] at he
  obtain ⟨u, rest, rfl, opens, blamed⟩ := h e he
  exact ⟨w ++ u, rest, Tokens.prepend_prepend, by rwa [← List.append_assoc],
    blamed.imp_right fun ⟨behind, refused⟩ => ⟨behind, refuses u _ refused⟩⟩

section Repetition

variable {more : Tokens → Bool} {Item : List Token → α → Prop}
  (reads : Reads n p fun w _ a => Item w a) (reads' : Reads m p' fun w _ a => Item w a)
  (starts : ∀ {w a} (rest : Tokens), Item w a → w ≠ [] ∧ more (rest.prepend w) = true)
  (ends : ∀ {ts}, ts.ahead = [] → more ts = false)
  (stable : ∀ {s s' : Tokens}, s.LooksLike s' → more s = more s')
  (item : ∀ ts, more ts = true → Blames g [] p p' ts)

include reads reads' starts ends stable item

theorem manyUpTo (fuel : Nat) {e : ParseError}
    (h : Parser.manyUpTo more p fuel ts = .error (.error e)) :
    ∃ (parts : List (List Token × α)) (u : List Token) (rest : Tokens),
      ts = rest.prepend (words parts ++ u) ∧ (∀ x ∈ parts, Item x.1 x.2) ∧ Opens g u ∧
        (e.token = rest.current ∨ e.BlamesBehind rest ∧ ∀ rest' : Tokens,
          rest'.current = rest.current → ∀ fuel,
            (rest'.prepend (words parts ++ u)).ahead.length ≤ fuel →
              ∀ r, Parser.manyUpTo more p' fuel (rest'.prepend (words parts ++ u)) ≠ .ok r) := by
  induction fuel generalizing ts with
  | zero => cases h
  | succ fuel ih =>
    rw [manyUpTo_succ] at h
    split at h
    · rename_i hm
      rcases bind_eq_error_iff.1 h with stop | ⟨a, between, first, more⟩
      · -- The item that is read next is broken off.
        obtain ⟨u, rest, rfl, opens, blamed⟩ := item ts hm e stop
        refine ⟨[], u, rest, rfl, by simp, opens,
          blamed.imp_right fun ⟨behind, refused⟩ => ⟨behind, ?_⟩⟩
        intro rest' same fuel' enough r hr
        rw [words_nil, List.nil_append] at enough hr
        rw [stable (behind.looksLike same u)] at hm
        have some : (rest'.prepend u).ahead ≠ [] := fun nothing => by simp [ends nothing] at hm
        obtain ⟨fuel', rfl⟩ : ∃ k, fuel' = k + 1 :=
          Nat.exists_eq_add_one.2 (Nat.lt_of_lt_of_le (List.length_pos_iff.2 some) enough)
        rw [manyUpTo_succ, if_pos hm] at hr
        obtain ⟨a, between, hr, -⟩ := bind_eq_ok_iff.1 hr
        exact refused rest' same _ hr
      · -- One more item is read before.
        rcases bind_eq_error_iff.1 more with stop | ⟨as, rest, -, none⟩
        · obtain ⟨w, rfl, hw⟩ := reads.sound first
          obtain ⟨parts, u, rest, rfl, each, opens, blamed⟩ := ih stop
          refine ⟨(w, a) :: parts, u, rest, by simp, List.forall_mem_cons.2 ⟨hw, each⟩, opens,
            blamed.imp_right fun ⟨behind, refused⟩ => ⟨behind, ?_⟩⟩
          intro rest' same fuel' enough r hr
          obtain ⟨ne, hm⟩ := starts (rest'.prepend (words parts ++ u)) hw
          have := List.length_pos_iff.2 ne
          have split : words ((w, a) :: parts) ++ u = w ++ (words parts ++ u) := by simp
          rw [split, ← Tokens.prepend_prepend] at enough hr
          rw [Tokens.ahead_prepend, List.length_append] at enough
          obtain ⟨fuel', rfl⟩ : ∃ k, fuel' = k + 1 := Nat.exists_eq_add_one.2 (by omega)
          rw [manyUpTo_succ, if_pos hm] at hr
          obtain ⟨a', between, hr, behind⟩ := bind_eq_ok_iff.1 hr
          obtain ⟨as, between', others, -⟩ := bind_eq_ok_iff.1 behind
          rcases reads'.complete (rest'.prepend (words parts ++ u)) hw with h | h
          · rw [h] at hr
            cases hr
            exact refused rest' same fuel' (by omega) _ others
          · rw [h] at hr
            cases hr
        · cases none
    · cases h

/-- Items one after the other. -/
theorem many
    (lift : ∀ (parts : List (List Token × α)) (u : List Token), (∀ x ∈ parts, Item x.1 x.2) →
      Opens g u → Opens f (before ++ (words parts ++ u))) :
    Blames f before (Parser.many more p) (Parser.many more p') ts := by
  intro e he
  obtain ⟨parts, u, rest, rfl, each, opens, blamed⟩ :=
    manyUpTo reads reads' starts ends stable item _ he
  exact ⟨words parts ++ u, rest, rfl, lift parts u each opens,
    blamed.imp_right fun ⟨behind, refused⟩ => ⟨behind, fun rest' same r hr =>
      refused rest' same _ (Nat.le_refl _) r hr⟩⟩

theorem many_bind {k k' : List α → Parser β}
    (lift : ∀ (parts : List (List Token × α)) (u : List Token), (∀ x ∈ parts, Item x.1 x.2) →
      Opens g u → Opens f (before ++ (words parts ++ u)))
    (hk : ∀ (parts : List (List Token × α)) (rest : Tokens), ts = rest.prepend (words parts) →
      (∀ x ∈ parts, Item x.1 x.2) →
        Blames f (before ++ words parts) (k (trees parts)) (k' (trees parts)) rest) :
    Blames f before (Parser.many more p >>= k) (Parser.many more p' >>= k') ts := by
  refine bind (Reads.many reads starts ends) (Reads.many reads' starts ends) ?_
    (many reads reads' starts ends stable item lift) ?_
  · rintro w s s' as same ⟨parts, each, rfl, rfl, stop⟩
    exact ⟨parts, each, rfl, rfl, by rw [← stable same, stop]⟩
  · rintro - rest - rfl ⟨parts, each, rfl, rfl, -⟩
    exact hk parts rest rfl each

end Repetition

/-! ### Closing parentheses -/

theorem close_bind {k k' : Unit → Parser β} (opens : Opens f before) (form : String)
    (hk : ∀ closing rest, ts = rest.prepend [closing] → closing.kind = .rparen →
      Blames f (before ++ [closing]) (k ()) (k' ()) rest) :
    Blames f before (Parser.close form >>= k) (Parser.close form >>= k') ts :=
  bind (Reads.close (n := 0) form) (Reads.close (n := 0) form) (fun _ => id)
    (expect_bind (by decide) opens fun _ _ _ _ => pure ()) (by
      rintro - rest - rfl ⟨closing, closes, rfl⟩
      exact hk closing rest rfl closes)

/-- A parser, a closing parenthesis, and what comes after it. -/
theorem closed {R : List Token → Tokens → α → Prop} {k k' : α → Parser β} (reads : Reads n p R)
    (reads' : Reads m p' R) (stable : ∀ {w s s' a}, s.LooksLike s' → R w s a → R w s' a)
    (hp : Blames f before p p' ts) (form : String)
    (opens : ∀ u rest a, R u rest a → Opens f (before ++ u))
    (hk : ∀ u closing rest a, R u (rest.prepend [closing]) a → closing.kind = .rparen →
      Blames f (before ++ (u ++ [closing])) (k a) (k' a) rest) :
    Blames f before (p >>= fun a => Parser.close form >>= fun _ => k a)
      (p' >>= fun a => Parser.close form >>= fun _ => k' a) ts :=
  bind reads reads' stable hp fun u _ a _ read =>
    close_bind (opens u _ a read) form (by
      rintro closing rest rfl closes
      rw [List.append_assoc]
      exact hk u closing rest a read closes)

/-! ### Forms -/

section Forms

variable {p p' : Parser Expr} {opening head : Token}
  (reads : Reads n p fun w _ e => Derives (.expression e) w)
  (reads' : Reads m p' fun w _ e => Derives (.expression e) w)
  (hp : ∀ ts, Blames .expression [] p p' ts)

include reads reads' hp

theorem body : Blames .body [] (Parser.body p) (Parser.body p') ts :=
  many reads reads' (fun rest d => Reads.startsExpression_prepend d trivial rest)
    Reads.startsExpression_of_ahead_eq_nil startsExpression_eq (fun ts _ => hp ts)
    fun _ _ => opens_body

theorem closedBody {k k' : List Expr → Parser β} (form : String)
    (lift : ∀ u, Opens .body u → Opens f (before ++ u))
    (hk : ∀ u closing rest es, Derives (.body es) u → closing.kind = .rparen →
      Blames f (before ++ (u ++ [closing])) (k es) (k' es) rest) :
    Blames f before (Parser.body p >>= fun es => Parser.close form >>= fun _ => k es)
      (Parser.body p' >>= fun es => Parser.close form >>= fun _ => k' es) ts :=
  closed (Reads.body reads) (Reads.body reads')
    (fun same h => ⟨h.1, by rw [← startsExpression_eq same, h.2]⟩)
    (part (body reads reads' hp) lift) form (fun u _ _ read => lift u read.1.opens)
    fun u closing rest es read closes => hk u closing rest es read.1 closes

theorem predicate (ho : opening.kind = .lparen)
    (operator : head.kind = .notWord ∨ head.kind = .isTrue) :
    Blames .predicate [opening, head] (Parser.predicate p head) (Parser.predicate p' head) ts :=
  closed reads reads' (fun _ => id) (part (hp ts) fun _ => opens_predicate ho operator) head.lexeme
    (fun _ _ _ read => opens_predicate ho operator read.opens) fun _ _ _ _ _ _ => pure _

theorem printed (ho : opening.kind = .lparen)
    (operator : head.kind = .print ∨ head.kind = .println) :
    Blames .print [opening, head] (Parser.printed p head) (Parser.printed p' head) ts :=
  closedBody reads reads' hp head.lexeme (fun _ => opens_print ho operator)
    fun _ _ _ _ _ _ => pure _

theorem binding : Blames .binding [] (Parser.binding p) (Parser.binding p') ts := by
  refine current_bind (ite (fun _ => fail_bind opens_binding_nil) fun _ => ?_)
  refine expect_bind (by decide) opens_binding_nil fun name ts _ kind => ?_
  refine current_bind (ite (fun _ => ?_) fun _ =>
    fail (opens_binding kind (derives_null .any).opens_nil) _)
  exact bind reads reads' (fun _ => id) (part (hp ts) fun _ => opens_binding kind)
    fun _ _ _ _ _ => pure _

theorem bindings
    (lift : ∀ (parts : List (List Token × Binding Expr)) (u : List Token),
      (∀ x ∈ parts, Derives (.binding x.2) x.1) → Opens .binding u →
        Opens f (before ++ (words parts ++ u))) :
    Blames f before (Parser.bindings p) (Parser.bindings p') ts := by
  refine many_bind (Reads.binding reads) (Reads.binding reads')
    (fun rest d => Reads.binding_prepend d rest)
    (fun h => by simp [Tokens.atEnd_of_ahead_eq_nil h])
    (fun same => by simp only [Tokens.atEnd, same.current])
    (fun ts _ => binding reads reads' hp) lift ?_
  intro parts rest _ _
  refine current_bind (ite (fun _ => ?_) fun _ => pure _)
  exact of_ne_error fun _ h => by cases h

theorem letIn (ho : opening.kind = .lparen) (operator : head.kind = .letWord) :
    Blames .letIn [opening, head] (Parser.letIn p) (Parser.letIn p') ts := by
  have next {bracket : Token} (opens : bracket.kind = .lbracket)
      (parts : List (List Token × Binding Expr)) (each : ∀ x ∈ parts, Derives (.binding x.2) x.1)
      {u : List Token} (h : Opens .binding u) :
      Opens .letIn ([opening, head] ++ [bracket] ++ (words parts ++ u)) := by
    simpa using opens_bindings ho operator opens parts each h
  have first {bracket : Token} (opens : bracket.kind = .lbracket) :=
    (next opens [] (List.forall_mem_nil _) opens_binding_nil).of_append
  refine expect_bind (by decide) (first (kind_sample .lbracket)).of_append
    fun bracket ts _ opens => ?_
  refine current_bind (ite (fun name => ?_) fun _ => fail (first opens) _)
  refine bind (Reads.bindings reads) (Reads.bindings reads') ?_
    (bindings reads reads' hp fun parts _ each => next opens parts each) ?_
  · rintro w s s' bs same ⟨parts, each, rfl, ends⟩
    exact ⟨parts, each, rfl, ends.imp_right fun h => by
      rwa [Tokens.atEnd, ← same.current, ← Tokens.atEnd]⟩
  · rintro - rest - rfl ⟨parts, each, rfl, ⟨closing, closes, rfl⟩ | ⟨rfl, atEnd⟩⟩
    · have some : parts ≠ [] := by
        rintro rfl
        exact absurd (closes.symm.trans name) (by decide)
      have lift (u : List Token) (h : Opens .body u) : Opens .letIn
          ([opening, head] ++ [bracket] ++ (words parts ++ [closing]) ++ u) := by
        simpa using opens_letIn ho operator opens some each closes h
      exact closedBody reads reads' hp "let" lift fun _ _ _ _ _ _ => pure _
    · -- The text has ended within the list, so that there is no body that could be broken off.
      have opens : Opens .letIn ([opening, head] ++ [bracket] ++ words parts) := by
        simpa using next opens parts each opens_binding_nil
      have empty : Parser.body p rest = .ok ([], rest) := by
        rw [Tokens.atEnd, beq_iff_eq] at atEnd
        exact many_of_stop (by rw [startsExpression, atEnd]; rfl)
      intro e he
      rw [bind_ok empty, bind_error (close_of_atEnd atEnd "let")] at he
      cases he
      exact ⟨[], rest, rfl, by rwa [List.append_nil], .inl rfl⟩

theorem elseBody : Blames .otherwise [] (Parser.elseBody p) (Parser.elseBody p') ts := by
  cases ho : opens .elseWord ts with
  | false =>
    refine of_ne_error fun e h => ?_
    rw [Parser.elseBody, ho] at h
    cases h
  | true =>
    obtain ⟨opening, head, rest, rfl, hl, hh⟩ := exists_prepend_of_opens (by decide) ho
    have content : Blames .otherwise [opening, head]
        (Parser.body p >>= fun es => Parser.close "else" >>= fun _ => Pure.pure (some es))
        (Parser.body p' >>= fun es => Parser.close "else" >>= fun _ => Pure.pure (some es)) rest :=
      closedBody reads reads' hp "else" (fun _ => opens_else hl hh) fun _ _ _ _ _ _ => pure _
    refine behind [opening, head] (Reads.elseBody_of_opens hl hh rest) ?_ content
    intro u t refused s same r hr
    rw [← Tokens.prepend_prepend, Reads.elseBody_of_opens hl hh] at hr
    exact refused s same r hr

theorem ifThen (ho : opening.kind = .lparen) (operator : head.kind = .ifWord) :
    Blames .ifThen [opening, head] (Parser.ifThen p) (Parser.ifThen p') ts := by
  refine bind reads reads' (fun _ => id) (part (hp ts) fun _ => opens_condition ho operator)
    fun u ts condition _ hu => ?_
  refine expect_bind (by decide) (opens_condition ho operator hu.opens)
    fun thenOpening ts _ hto => ?_
  have thenBody {thenHead : Token} (hth : thenHead.kind = .thenWord) {v : List Token}
      (h : Opens .body v) :
      Opens .ifThen ([opening, head] ++ u ++ [thenOpening] ++ [thenHead] ++ v) := by
    simpa using opens_thenBody ho operator hu hto hth h
  refine expect_bind (by decide)
    (thenBody (kind_sample .thenWord) derives_body_nil.opens).of_append.of_append
    fun thenHead ts _ hth => ?_
  refine closedBody reads reads' hp "then" (fun _ => thenBody hth) fun v closing ts _ hv hc => ?_
  have lift (w : List Token) (h : Opens .otherwise w) : Opens .ifThen
      ([opening, head] ++ u ++ [thenOpening] ++ [thenHead] ++ (v ++ [closing]) ++ w) := by
    simpa using opens_ifThen ho operator hu hto hth hv hc h
  exact closed (Reads.elseBody reads) (Reads.elseBody reads') elseBody_stable
    (part (elseBody reads reads' hp) lift) "if" (fun u _ _ read => lift u read.1.opens)
    fun _ _ _ _ _ _ => pure _

theorem clause : Blames .clause [] (Parser.clause p) (Parser.clause p') ts := by
  have first {opening : Token} (ho : opening.kind = .lparen) : Opens .clause [opening] :=
    (opens_clauseCondition ho (derives_null .any).opens_nil).of_append
  refine expect_bind (by decide) opens_clause_nil fun opening ts _ ho => ?_
  refine current_bind (ite (fun _ => ?_) fun _ => fail (first ho) _)
  refine bind reads reads' (fun _ => id) (part (hp ts) fun _ => opens_clauseCondition ho)
    fun u ts condition _ hu => ?_
  refine closedBody reads reads' hp "" (fun v h => ?_) fun _ _ _ _ _ _ => pure _
  simpa using opens_clause ho hu h

theorem cond (ho : opening.kind = .lparen) (operator : head.kind = .condWord) :
    Blames .cond [opening, head] (Parser.cond p) (Parser.cond p') ts := by
  refine many_bind (Reads.clause reads) (Reads.clause reads')
    (fun rest d => Reads.clause_prepend d rest)
    (fun h => by simp [Reads.startsExpression_of_ahead_eq_nil h])
    (fun same => by rw [startsExpression_eq same, opens_eq same])
    (fun ts _ => clause reads reads' hp) (fun parts _ => opens_clauses ho operator parts) ?_
  intro parts rest _ each
  have clauses := opens_clauses ho operator parts each opens_clause_nil
  refine ite (fun none => current_bind (fail_bind (by simpa using clauses))) fun some => ?_
  have lift (w : List Token) (h : Opens .otherwise w) :
      Opens .cond ([opening, head] ++ words parts ++ w) := by
    simpa using opens_cond ho operator (by rintro rfl; exact some rfl) each h
  exact closed (Reads.elseBody reads) (Reads.elseBody reads') elseBody_stable
    (part (elseBody reads reads' hp) lift) "cond" (fun u _ _ read => lift u read.1.opens)
    fun _ _ _ _ _ _ => pure _

end Forms

theorem operands {p p' : Parser Expr} {opening head : Token} (o : Operation)
    (ho : opening.kind = .lparen) (operator : head.kind ∈ o.operators)
    (reads : Reads n p fun w _ e => Derives (o.operand e) w)
    (reads' : Reads m p' fun w _ e => Derives (o.operand e) w)
    (hp : ∀ ts, Blames o.operand [] p p' ts) :
    Blames (.operation o) [opening, head] (Parser.operands (o.node head) p head)
      (Parser.operands (o.node head) p' head) ts := by
  have next (parts : List (List Token × Expr)) (u : List Token) :=
    opens_operation (u := u) ho operator parts
  refine bind reads reads' (fun _ => id) (part (hp ts) fun u => next [] u (List.forall_mem_nil _))
    fun u ts first _ hu => ?_
  refine bind reads reads' (fun _ => id) (part (hp ts) fun v h => ?_) fun v ts second _ hv => ?_
  · simpa using next [(u, first)] v (by simpa using hu) h
  have others (parts : List (List Token × Expr)) (w : List Token)
      (each : ∀ x ∈ parts, Derives (o.operand x.2) x.1) (h : Opens o.operand w) :
      Opens (.operation o) ([opening, head] ++ u ++ v ++ (words parts ++ w)) := by
    have each : ∀ x ∈ (u, first) :: (v, second) :: parts, Derives (o.operand x.2) x.1 := by
      simpa only [List.forall_mem_cons] using ⟨hu, hv, each⟩
    simpa using next _ w each h
  refine many_bind reads reads'
    (fun rest d => Reads.startsExpression_prepend d (by cases o <;> trivial) rest)
    Reads.startsExpression_of_ahead_eq_nil startsExpression_eq (fun ts _ => hp ts) others ?_
  intro parts rest _ each
  have whole := others parts [] each o.derives_null.opens_nil
  exact close_bind (by simpa using whole) head.lexeme fun _ _ _ _ => pure _

/-- Behind the head of a form, if all levels are as they should be. -/
theorem inside {e e' : Level → Parser Expr} {form : Form} {opening head : Token}
    (reads : ∀ level, Reads n (e level) fun w _ e => Derives (phraseAt level e) w)
    (reads' : ∀ level, Reads m (e' level) fun w _ e => Derives (phraseAt level e) w)
    (hp : ∀ level ts, Blames (phraseAt level) [] (e level) (e' level) ts)
    (ho : opening.kind = .lparen) (hf : Form.ofHead? head.kind = some form) :
    Blames (phraseOf form) [opening, head] (Parser.inside e form head)
      (Parser.inside e' form head) ts := by
  have heads := ofHead?_eq_some_iff.1 hf
  have any := reads .any
  have any' := reads' .any
  cases form with
  | letIn => exact letIn any any' (hp .any) ho (by simpa [headsOf] using heads)
  | print => exact printed any any' (hp .any) ho (by simpa [headsOf] using heads)
  | ifThen => exact ifThen any any' (hp .any) ho (by simpa [headsOf] using heads)
  | cond => exact cond any any' (hp .any) ho (by simpa [headsOf] using heads)
  | logical => exact operands .logical ho heads any any' (hp .any)
  | equality =>
    exact operands .equality ho heads (reads .comparison) (reads' .comparison) (hp .comparison)
  | comparison =>
    have binary {n : Nat} {p : Parser Expr} (h : Reads n p fun w _ e => Derives (.unary e) w) :
        Reads n p fun w _ e => Derives (.binary e) w :=
      h.congr fun _ _ _ => derives_binary_iff.symm
    exact operands .comparison ho heads (binary (reads .operand)) (binary (reads' .operand))
      fun ts => (hp .operand ts).part fun _ opens => by
        obtain ⟨v, e, d⟩ := opens
        exact ⟨v, e, derives_binary_iff.2 d⟩
  | arithmetic =>
    exact operands .arithmetic ho heads (reads .operand) (reads' .operand) (hp .operand)
  | predicate => exact predicate any any' (hp .any) ho (by simpa [headsOf] using heads)

end Blames

end Parser

end Lisplet
