import Lisplet.Proofs.Descent.Positions
import Lisplet.Proofs.Grammar.Consumption

/-!
# The descent follows the parser

The parser takes one step of its recursion for each expression, and it stops by itself where too
many are nested; the descent goes from nonterminal to nonterminal, and nothing stops it.  All the
same it does what the parser does, if that has room enough (`Descent.Follows`).

This is composed along the sequences, tests and loops that a descent is made of, so that
nonterminals are followed by reading their definitions.  It is proved of all of them together, by
induction on the room (`Follows.operand`): there is one step for the nonterminals that call each
other before a token is taken, since they are what one expression may be, and what they read behind
a parenthesis or a sign has less room.
-/

namespace Lisplet

open Grammar

/-- The forms that an equality may be. -/
def Form.isEquality : Form → Bool
  | .letIn | .print | .ifThen | .cond | .logical => false
  | .equality | .comparison | .arithmetic | .predicate => true

namespace Descent

variable {α β γ : Type} {tokens : TokenList} {d d' : Descent α} {p q : Parser α} {ts : Tokens}

/-! ### Following a parser -/

/-- Where the parser `p` has the stream `ts` before it, the descent does the same: it comes to the
same result, and stands where the rest begins, or it stops at the same violation; either way it does
not go past the end of the text.  Where the parser finds expressions nested too deeply nothing is
said. -/
structure Follows (tokens : TokenList) (d : Descent α) (p : Parser α) (ts : Tokens) : Prop where
  ok : ∀ {i a rest}, ts.LeftAt tokens i → p ts = .ok (a, rest) →
    ∃ j, d.run i = some (.ok a, j) ∧ rest.LeftAt tokens j ∧ Within tokens i j
  error : ∀ {i e}, ts.LeftAt tokens i → p ts = .error (.error e) →
    ∃ j, d.run i = some (.error (.violation e), j) ∧ Within tokens i j

namespace Follows

/-! ### Sequences and tests -/

variable {f : α → Descent β} {g : α → Parser β}

theorem congr (h : p ts = q ts) (hq : Follows tokens d q ts) : Follows tokens d p ts where
  ok hi hp := hq.ok hi (h ▸ hp)
  error hi hp := hq.error hi (h ▸ hp)

theorem of_tooDeep (h : p ts = .error .tooDeep) : Follows tokens d p ts where
  ok _ hp := by rw [h] at hp; cases hp
  error _ hp := by rw [h] at hp; cases hp

theorem pure (a : α) : Follows tokens (pure a) (pure a) ts where
  ok {i _ _} hi hp := by
    cases hp
    exact ⟨i, rfl, hi, .refl tokens i⟩
  error _ hp := by cases hp

/-- What is found by looking is known to the parser. -/
theorem look {a : α} {f : α → Descent β} {p : Parser β} (hd : Looks tokens d ts a)
    (hf : Follows tokens (f a) p ts) : Follows tokens (d >>= f) p ts where
  ok hi hp := by
    rw [run_bind_ok (hd _ hi)]
    exact hf.ok hi hp
  error hi hp := by
    rw [run_bind_ok (hd _ hi)]
    exact hf.error hi hp

theorem bind (hd : Follows tokens d p ts)
    (hf : ∀ a rest, p ts = .ok (a, rest) → Follows tokens (f a) (g a) rest) :
    Follows tokens (d >>= f) (p >>= g) ts where
  ok {i b rest} hi hp := by
    obtain ⟨a, between, first, second⟩ := Parser.bind_eq_ok_iff.1 hp
    obtain ⟨j, hd, hj, forth⟩ := hd.ok hi first
    obtain ⟨k, hf, hk, further⟩ := (hf a between first).ok hj second
    exact ⟨k, (run_bind_ok hd).trans hf, hk, forth.trans further⟩
  error {i e} hi hp := by
    rcases Parser.bind_eq_error_iff.1 hp with first | ⟨a, between, first, second⟩
    · obtain ⟨j, hd, forth⟩ := hd.error hi first
      exact ⟨j, run_bind_error hd, forth⟩
    · obtain ⟨j, hd, hj, forth⟩ := hd.ok hi first
      obtain ⟨k, hf, further⟩ := (hf a between first).error hj second
      exact ⟨k, (run_bind_ok hd).trans hf, forth.trans further⟩

/-- A choice by what is found by looking. -/
theorem test {c : Prop} [Decidable c] {look : Descent Bool} {b : Bool}
    (looks : Looks tokens look ts b) (iff : b = true ↔ c) (hp : c → Follows tokens d p ts)
    (hq : ¬ c → Follows tokens d' q ts) :
    Follows tokens (look >>= fun b => if b = true then d else d') (if c then p else q) ts := by
  refine Follows.look looks ?_
  by_cases h : c
  · rw [if_pos h, if_pos (iff.2 h)]
    exact hp h
  · rw [if_neg h, if_neg (mt iff.1 h)]
    exact hq h

theorem yes {look : Descent Bool} (looks : Looks tokens look ts true) (h : Follows tokens d p ts) :
    Follows tokens (look >>= fun b => if b = true then d else d') p ts := Follows.look looks h

theorem no {look : Descent Bool} (looks : Looks tokens look ts false) (h : Follows tokens d' p ts) :
    Follows tokens (look >>= fun b => if b = true then d else d') p ts := Follows.look looks h

theorem fail (problem : ParseProblem) (t : Token) :
    Follows tokens (violation problem t : Descent α) (Parser.fail problem t) ts where
  ok _ hp := by cases hp
  error {i _} hi hp := by
    cases hp
    exact ⟨i, rfl, .refl tokens i⟩

theorem failCurrent (problem : ParseProblem) :
    Follows tokens (tokens.current >>= violation problem : Descent α)
      (Parser.fail problem ts.current) ts :=
  look .current (fail problem _)

theorem next : Follows tokens tokens.next Parser.next ts where
  ok {i _ _} hi hp := by
    cases hp
    cases begins : ts.atEnd with
    | true =>
      rw [Tokens.advance_of_atEnd begins, TokenList.next, run_bind_ok (Looks.atEnd i hi), begins]
      exact ⟨i, Looks.current i hi, hi, .refl tokens i⟩
    | false => exact ⟨i + 1, run_next hi begins, hi.advance begins, hi.within_succ begins⟩
  error _ hp := by cases hp

/-- What follows a token that is accepted. -/
theorem taken {kinds : Kind → Bool} {f : Descent α} (h : kinds ts.current.kind = true)
    (begins : ts.atEnd = false) (hf : Follows tokens f p ts.advance)
    (same : ∀ i, tokens[i]? = some ts.current → d.run (i + 1) = f.run (i + 1)) :
    Follows tokens (tokens.accept kinds >>= fun b => if b = true then d else d')
      (Parser.next >>= fun _ => p) ts where
  ok {i a rest} hi hp := by
    obtain ⟨j, hd, hj, forth⟩ := hf.ok (hi.advance begins) hp
    rw [run_bind_ok (run_accept hi begins h), if_pos rfl, same i hi.current]
    exact ⟨j, hd, hj, (hi.within_succ begins).trans forth⟩
  error {i e} hi hp := by
    obtain ⟨j, hd, forth⟩ := hf.error (hi.advance begins) hp
    rw [run_bind_ok (run_accept hi begins h), if_pos rfl, same i hi.current]
    exact ⟨j, hd, (hi.within_succ begins).trans forth⟩

theorem known {k : Token → Parser α} (h : Follows tokens d (k ts.current) ts) :
    Follows tokens d (Parser.current >>= k) ts := congr (q := k ts.current) rfl h

theorem expect (kind : Kind) (problem : ParseProblem) :
    Follows tokens (tokens.expect kind problem) (Parser.expect kind problem) ts := by
  rw [TokenList.expect]
  exact known <| test (.sees _) beq_iff_eq (fun _ => next) fun _ => failCurrent problem

theorem close (form : String) : Follows tokens (tokens.close form) (Parser.close form) ts :=
  (expect .rparen (.close form)).bind fun _ _ _ => pure ()

/-- A token that is a literal or a name by itself. -/
theorem single {kinds : Kind → Bool} {found : Token → Expr} {d : Descent Expr}
    (h : kinds ts.current.kind = true)
    (hs : Parser.single? ts.current = some (found ts.current)) :
    Follows tokens (tokens.accept kinds >>= fun b =>
      if b = true then tokens.previous >>= fun t => Pure.pure (found t) else d) Parser.atom ts := by
  have begins : ts.atEnd = false := by simpa [Tokens.atEnd] using Parser.ne_eof_of_single? hs
  exact congr (Parser.atom_of_single? hs)
    (taken h begins (pure (found ts.current)) fun _ h => run_bind_ok (run_previous h))

theorem literal : Follows tokens tokens.literal Parser.atom ts := by
  by_cases h₁ : [Kind.string, .number].contains ts.current.kind = true
  · refine single h₁ ?_
    rcases (by simpa using h₁) with h | h <;> simp [Parser.single?, h]
  refine look (.accept (by simpa using h₁)) ?_
  by_cases h₂ : [Kind.identifier].contains ts.current.kind = true
  · refine single h₂ ?_
    simp [Parser.single?, (by simpa using h₂ : ts.current.kind = .identifier)]
  refine look (.accept (by simpa using h₂)) ?_
  by_cases h₃ : [Kind.trueWord, .falseWord, .nullWord].contains ts.current.kind = true
  · refine single h₃ ?_
    rcases (by simpa using h₃) with h | h | h <;> simp [Parser.single?, TokenList.constant, h]
  refine look (.accept (by simpa using h₃)) ?_
  have none : Parser.single? ts.current = none := by
    unfold Parser.single?
    split <;> simp_all
  exact congr (Parser.atom_of_single?_eq_none none) <|
    test (.seesNext _) beq_iff_eq (fun _ => look .following (fail _ _)) fun _ =>
    test (.sees _) beq_iff_eq (fun _ => failCurrent _) fun _ =>
    test (.seesNext _) beq_iff_eq (fun _ => look .following (fail _ _)) fun _ => failCurrent _

/-! ### Repetitions -/

/-- A loop that carries a state on.  An item takes a token at least, so that there are no more items
than tokens. -/
theorem repeated {σ : Type} {loop : σ → Descent γ} {item : Descent α} {step : σ → α → σ}
    {more : Tokens → Bool} (final : σ → Parser γ)
    (shrinks : ∀ {ts a rest}, p ts = .ok (a, rest) → rest.ahead.length < ts.ahead.length)
    (ends : ∀ {ts : Tokens}, ts.ahead = [] → more ts = false)
    (items : ∀ ts, Follows tokens item p ts)
    (goesOn : ∀ s {q} ts, more ts = true →
      Follows tokens (item >>= fun a => loop (step s a)) q ts → Follows tokens (loop s) q ts)
    (stops : ∀ s ts, more ts = false → Follows tokens (loop s) (final s) ts) (s : σ) (ts : Tokens) :
    Follows tokens (loop s) (Parser.many more p >>= fun as => final (as.foldl step s)) ts := by
  suffices h : ∀ fuel s ts, ts.ahead.length ≤ fuel → Follows tokens (loop s)
      (Parser.manyUpTo more p fuel >>= fun as => final (as.foldl step s)) ts from
    congr (q := Parser.manyUpTo more p ts.ahead.length >>= fun as => final (as.foldl step s)) rfl
      (h ts.ahead.length s ts (Nat.le_refl _))
  intro fuel
  induction fuel with
  | zero =>
    intro s ts enough
    exact congr (q := final s) rfl (stops s ts (ends (List.length_eq_zero_iff.1 (by omega))))
  | succ fuel ih =>
    intro s ts enough
    cases hm : more ts with
    | true =>
      refine congr (Parser.manyUpTo_bind hm _) (goesOn s ts hm ((items ts).bind ?_))
      intro a rest hp
      have := shrinks hp
      exact ih (step s a) rest (by omega)
    | false =>
      exact congr (q := final s) (Parser.bind_ok (Parser.manyUpTo_of_not_more _ hm)) (stops s ts hm)

theorem foldl_concat (found as : List α) :
    as.foldl (fun found a => found ++ [a]) found = found ++ as := by
  rw [List.foldl_append_eq_append, ← List.flatMap_def, List.flatMap_singleton']

/-- What is found in a repetition is carried on to its end. -/
theorem collected {loop : List α → Descent γ} {item : Descent α} {more : Tokens → Bool}
    {final : List α → Parser γ}
    (shrinks : ∀ {ts a rest}, p ts = .ok (a, rest) → rest.ahead.length < ts.ahead.length)
    (ends : ∀ {ts : Tokens}, ts.ahead = [] → more ts = false)
    (items : ∀ ts, Follows tokens item p ts)
    (goesOn : ∀ found {q} ts, more ts = true →
      Follows tokens (item >>= fun a => loop (found ++ [a])) q ts →
        Follows tokens (loop found) q ts)
    (stops : ∀ found ts, more ts = false → Follows tokens (loop found) (final found) ts)
    (ts : Tokens) : Follows tokens (loop []) (Parser.many more p >>= final) ts := by
  have := repeated final shrinks ends items goesOn stops [] ts
  simpa only [foldl_concat, List.nil_append] using this

/-! ### Forms -/

theorem failed (problem : ParseProblem) (t : Token) {k : α → Parser β} :
    Follows tokens (violation problem t : Descent β) (Parser.fail problem t >>= k) ts :=
  congr (q := Parser.fail problem t) rfl (fail problem t)

/-- A form, from its opening parenthesis on. -/
theorem formOf {room : Nat} {form : Form} {f : Token → Descent Expr}
    (h : ∀ head ts, Follows tokens (f head)
      (Parser.inside (Parser.expression room) form head) ts) (ts : Tokens) :
    Follows tokens (tokens.next >>= fun _ => tokens.next >>= f)
      (Parser.formOf (Parser.expression room) form) ts :=
  next.bind fun _ _ _ => next.bind fun head rest _ => h head rest

/-- A form that opens here, or else something else. -/
theorem orElse {form : Form} (h : Parser.form? ts = some form → Follows tokens d p ts)
    (h' : Parser.form? ts ≠ some form → Follows tokens d' p ts) :
    Follows tokens (tokens.opens form >>= fun b => if b = true then d else d') p ts := by
  by_cases hf : Parser.form? ts = some form
  · exact yes ((Looks.opens form).of_eq (beq_iff_eq.2 hf)) (h hf)
  · exact no ((Looks.opens form).of_eq (beq_eq_false_iff_ne.2 hf)) (h' hf)

section Forms

-- What stands inside a form is followed with the room that is left behind its parenthesis.
variable {room : Nat}
  (ih : ∀ (o : Operation) ts, Follows tokens (tokens.operand o) (Parser.expression room o.level) ts)

include ih

theorem any (ts : Tokens) : Follows tokens tokens.expression (Parser.expression room .any) ts := by
  have := ih .logical ts
  rwa [TokenList.operand] at this

theorem body (ts : Tokens) :
    Follows tokens (tokens.body []) (Parser.body (Parser.expression room .any)) ts := by
  refine congr
    (q := Parser.many Parser.startsExpression (Parser.expression room .any) >>= Pure.pure)
    (by rw [Parser.bind_pure]; rfl) ?_
  refine collected Parser.shrinks_expression Parser.Reads.startsExpression_of_ahead_eq_nil
    (any ih) (fun found q ts more h => ?_) (fun found ts more => ?_) ts
  · rw [TokenList.body]
    exact yes ((Looks.sees _).of_eq more)
      (no (Looks.atEnd.of_eq (Parser.atEnd_of_startsExpression more)) h)
  · rw [TokenList.body]
    exact no ((Looks.sees _).of_eq more) (pure _)

theorem elseBody (ts : Tokens) :
    Follows tokens tokens.elseBody (Parser.elseBody (Parser.expression room .any)) ts := by
  rw [TokenList.elseBody]
  refine congr (q := if Parser.opens .elseWord ts = true then
      (Parser.next >>= fun _ => Parser.next >>= fun _ =>
        Parser.body (Parser.expression room .any) >>= fun es =>
        Parser.close "else" >>= fun _ => Pure.pure (some es))
    else Pure.pure none) (by rw [Parser.elseBody]; split <;> rfl) ?_
  refine test (.seesOpening_singleton _) Iff.rfl (fun _ => ?_) fun _ => pure none
  refine next.bind fun _ _ _ => next.bind fun _ ts _ => ?_
  exact (body ih ts).bind fun content _ _ => (close "else").bind fun _ _ _ => pure (some content)

theorem binding (ts : Tokens) :
    Follows tokens tokens.binding (Parser.binding (Parser.expression room .any)) ts := by
  rw [TokenList.binding]
  refine known <| test (.sees _) beq_iff_eq (fun _ => look .current (failed _ _)) fun _ => ?_
  refine (expect _ _).bind fun name ts _ => ?_
  refine known <| test (.sees _) Iff.rfl (fun _ => ?_) fun _ => failCurrent _
  exact (any ih ts).bind fun value _ _ => pure (Binding.mk name value)

theorem bindings (ts : Tokens) :
    Follows tokens (tokens.bindings []) (Parser.bindings (Parser.expression room .any)) ts := by
  refine collected Parser.shrinks_binding (fun h => by simp [Tokens.atEnd_of_ahead_eq_nil h])
    (binding ih) (fun found q ts more h => ?_) (fun found ts more => ?_) ts
  · simp only [Bool.and_eq_true, bne_iff_ne, ne_eq, Bool.not_eq_true'] at more
    rw [TokenList.bindings]
    exact no (Looks.accept (beq_eq_false_iff_ne.2 more.1)) (no (Looks.atEnd.of_eq more.2) h)
  · rw [TokenList.bindings]
    refine known ?_
    by_cases closes : ts.current.kind = .rbracket
    · rw [if_pos closes]
      exact taken (beq_iff_eq.2 closes) (by simp [Tokens.atEnd, closes]) (pure _) fun _ _ => rfl
    · rw [if_neg closes]
      exact no (Looks.accept (beq_eq_false_iff_ne.2 closes))
        (yes (Looks.atEnd.of_eq (by simpa [closes] using more)) (pure _))

theorem clause (ts : Tokens) :
    Follows tokens tokens.clause (Parser.clause (Parser.expression room .any)) ts := by
  rw [TokenList.clause]
  refine (expect _ _).bind fun _ ts _ => ?_
  refine known <| test (.sees _) Iff.rfl (fun _ => ?_) fun _ => failCurrent _
  refine (any ih ts).bind fun condition ts _ => (body ih ts).bind fun content _ _ => ?_
  exact (close "").bind fun _ _ _ => pure (Clause.mk condition content)

theorem clauses (ts : Tokens) : Follows tokens (tokens.clauses [])
    (Parser.many (fun ts => Parser.startsExpression ts && !Parser.opens .elseWord ts)
      (Parser.clause (Parser.expression room .any))) ts := by
  refine congr (q := Parser.many _ _ >>= Pure.pure) (by rw [Parser.bind_pure]) ?_
  refine collected Parser.shrinks_clause
    (fun h => by simp [Parser.Reads.startsExpression_of_ahead_eq_nil h])
    (clause ih) (fun found q ts more h => ?_) (fun found ts more => ?_) ts
  · simp only [Bool.and_eq_true, Bool.not_eq_true'] at more
    rw [TokenList.clauses]
    exact yes ((Looks.sees _).of_eq more.1) (no ((Looks.seesOpening_singleton _).of_eq more.2)
      (no (Looks.atEnd.of_eq (Parser.atEnd_of_startsExpression more.1)) h))
  · rw [TokenList.clauses]
    cases starts : Parser.startsExpression ts with
    | true =>
      exact yes ((Looks.sees _).of_eq starts)
        (yes ((Looks.seesOpening_singleton _).of_eq (by simpa [starts] using more)) (pure _))
    | false => exact no ((Looks.sees _).of_eq starts) (pure _)

theorem letIn (ts : Tokens) :
    Follows tokens tokens.letIn (Parser.formOf (Parser.expression room) .letIn) ts := by
  rw [TokenList.letIn]
  refine formOf (fun _ ts => congr (q := Parser.letIn (Parser.expression room .any)) rfl ?_) ts
  refine (expect _ _).bind fun _ ts _ => ?_
  refine known <| test (.sees _) beq_iff_eq (fun _ => ?_) fun _ => failCurrent _
  refine (bindings ih ts).bind fun bound ts _ => (body ih ts).bind fun content _ _ => ?_
  exact (close "let").bind fun _ _ _ => pure (Expr.letIn bound content)

theorem printed (ts : Tokens) :
    Follows tokens tokens.printed (Parser.formOf (Parser.expression room) .print) ts := by
  rw [TokenList.printed]
  refine formOf (fun operator ts => (body ih ts).bind fun content _ _ => ?_) ts
  exact (close operator.lexeme).bind fun _ _ _ => pure (Expr.print operator content)

theorem ifThen (ts : Tokens) :
    Follows tokens tokens.ifThen (Parser.formOf (Parser.expression room) .ifThen) ts := by
  rw [TokenList.ifThen]
  refine formOf (fun _ ts => congr (q := Parser.ifThen (Parser.expression room .any)) rfl ?_) ts
  refine (any ih ts).bind fun condition _ _ => ?_
  refine (expect _ _).bind fun _ _ _ => (expect _ _).bind fun _ ts _ => ?_
  refine (body ih ts).bind fun thenBody _ _ => (close "then").bind fun _ ts _ => ?_
  refine (elseBody ih ts).bind fun otherwise _ _ => ?_
  exact (close "if").bind fun _ _ _ => pure (Expr.ifThen condition thenBody otherwise)

theorem cond (ts : Tokens) :
    Follows tokens tokens.cond (Parser.formOf (Parser.expression room) .cond) ts := by
  rw [TokenList.cond]
  refine formOf (fun _ ts => (clauses ih ts).bind fun found rest _ => ?_) ts
  cases found with
  | nil => exact known (look .current (failed _ _))
  | cons c found =>
    refine (elseBody ih rest).bind fun otherwise _ _ => ?_
    exact (close "cond").bind fun _ _ _ => pure (Expr.cond (c :: found) otherwise)

theorem operands (o : Operation) (operator : Token) (e : Expr) (ts : Tokens) :
    Follows tokens (tokens.operands o operator e)
      (Parser.many Parser.startsExpression (Parser.expression room o.level) >>= fun others =>
        Pure.pure (others.foldl (o.node operator) e)) ts := by
  refine repeated Pure.pure Parser.shrinks_expression
    Parser.Reads.startsExpression_of_ahead_eq_nil (ih o) (fun e q ts more h => ?_)
    (fun e ts more => ?_) e ts
  · rw [TokenList.operands]
    exact yes ((Looks.sees _).of_eq more) h
  · rw [TokenList.operands]
    exact no ((Looks.sees _).of_eq more) (pure _)

theorem operation (o : Operation) (ts : Tokens) :
    Follows tokens (tokens.operation o) (Parser.formOf (Parser.expression room) o.form) ts := by
  rw [TokenList.operation]
  refine formOf (fun operator ts => congr (q := Parser.operands (o.node operator)
    (Parser.expression room o.level) operator) (by cases o <;> rfl) ?_) ts
  refine (ih o ts).bind fun first rest _ => (ih o rest).bind fun second rest _ => ?_
  -- The trees are folded while the operands are read.
  refine congr (q := (Parser.many Parser.startsExpression (Parser.expression room o.level) >>=
      fun others => Pure.pure (others.foldl (o.node operator) (o.node operator first second))) >>=
    fun e => Parser.close operator.lexeme >>= fun _ => Pure.pure e)
    (by rw [Parser.bind_assoc]; rfl) ?_
  refine (operands ih o operator _ rest).bind fun e _ _ => ?_
  exact (close operator.lexeme).bind fun _ _ _ => pure e

/-! ### Nonterminals -/

theorem unary (ts : Tokens) :
    Follows tokens tokens.unary (Parser.among Level.operand.admits (room + 1)) ts := by
  rw [TokenList.unary]
  cases hs : Parser.signs ts with
  | true =>
    refine yes (Looks.signs.of_eq hs) (congr (Parser.among_of_signs hs) ?_)
    exact next.bind fun operator ts _ => (any ih ts).bind fun e _ _ => pure (Expr.unary operator e)
  | false =>
    refine no (Looks.signs.of_eq hs) ?_
    refine orElse (fun h => congr (Parser.among_of_form h rfl) ?_) fun h => ?_
    · refine formOf (fun operator ts => (any ih ts).bind fun right _ _ => ?_) ts
      exact (close operator.lexeme).bind fun _ _ _ => pure (Expr.unary operator right)
    refine orElse (fun h => congr (Parser.among_of_form h rfl) ?_) fun h' => ?_
    · -- Arithmetic is looked for once more, and found.
      rw [TokenList.binary]
      exact orElse (fun _ => operation ih .arithmetic ts) fun ne => absurd h ne
    refine congr (Parser.among_of_atom hs fun form hf => ?_) literal
    cases form <;> first | rfl | exact absurd hf ‹_›

theorem binary (ts : Tokens) :
    Follows tokens tokens.binary (Parser.among Level.operand.admits (room + 1)) ts := by
  rw [TokenList.binary]
  exact orElse (fun h => congr (Parser.among_of_form h rfl) (operation ih .arithmetic ts))
    fun _ => unary ih ts

theorem comparison (ts : Tokens) :
    Follows tokens tokens.comparison (Parser.among Level.comparison.admits (room + 1)) ts := by
  rw [TokenList.comparison]
  refine orElse (fun h => congr (Parser.among_of_form h rfl) (operation ih .comparison ts))
    fun ne => congr (Parser.among_congr fun form hf => ?_) (binary ih ts)
  cases form <;> first | rfl | exact absurd hf ne

theorem equality (ts : Tokens) :
    Follows tokens tokens.equality (Parser.among Form.isEquality (room + 1)) ts := by
  rw [TokenList.equality]
  refine orElse (fun h => congr (Parser.among_of_form h rfl) (operation ih .equality ts))
    fun ne => congr (Parser.among_congr fun form hf => ?_) (comparison ih ts)
  cases form <;> first | rfl | exact absurd hf ne

theorem logical (ts : Tokens) :
    Follows tokens tokens.logical (Parser.formOf (Parser.expression room) .logical) ts := by
  rw [TokenList.logical]
  exact operation ih .logical ts

theorem expression (ts : Tokens) :
    Follows tokens tokens.expression (Parser.among Level.any.admits (room + 1)) ts := by
  rw [TokenList.expression]
  refine orElse (fun h => congr (Parser.among_of_form h rfl) (letIn ih ts)) fun h₁ => ?_
  refine orElse (fun h => congr (Parser.among_of_form h rfl) (printed ih ts)) fun h₂ => ?_
  refine orElse (fun h => congr (Parser.among_of_form h rfl) (ifThen ih ts)) fun h₃ => ?_
  refine orElse (fun h => congr (Parser.among_of_form h rfl) (cond ih ts)) fun h₄ => ?_
  refine orElse (fun h => congr (Parser.among_of_form h rfl) (logical ih ts)) fun h₅ => ?_
  refine congr (Parser.among_congr fun form hf => ?_) (equality ih ts)
  cases form <;> first | rfl | exact absurd hf ‹_›

end Forms

/-- The operands of an operator are read as the parser reads them at their level. -/
theorem operand (tokens : TokenList) (room : Nat) (o : Operation) (ts : Tokens) :
    Follows tokens (tokens.operand o) (Parser.expression room o.level) ts := by
  induction room generalizing o ts with
  | zero => exact of_tooDeep rfl
  | succ room ih =>
    cases o <;> rw [TokenList.operand] <;> refine congr Parser.expression_eq_among ?_
    · exact expression ih ts
    · exact comparison ih ts
    · exact binary ih ts
    · exact unary ih ts

theorem program (room : Nat) (ts : Tokens) :
    Follows tokens (tokens.program []) (Parser.program room) ts := by
  refine congr (q := Parser.many (fun ts => !ts.atEnd) (Parser.expression room .any) >>= Pure.pure)
    (by rw [Parser.bind_pure]; rfl) ?_
  refine collected Parser.shrinks_expression (fun h => by simp [Tokens.atEnd_of_ahead_eq_nil h])
    (any (operand tokens room)) (fun found q ts more h => ?_) (fun found ts more => ?_) ts
  · rw [TokenList.program]
    exact no (Looks.atEnd.of_eq (by simpa using more)) h
  · rw [TokenList.program]
    exact yes (Looks.atEnd.of_eq (by simpa using more)) (pure _)

end Follows

end Descent

end Lisplet
