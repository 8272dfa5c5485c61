import Lisplet.Proofs.Grammar.Derivation

/-!
# Prefixes of phrases

`Opens f u` says that the tokens `u` can be continued to a phrase of the sort `f`.  What is open
stays open with less of it (`Opens.of_append`), every sort of phrase that is asked for within a form
is open to begin with, and a form is open as long as the part that stands last in it is.
-/

namespace Lisplet.Grammar

/-- The tokens can be continued to a phrase. -/
def Opens {γ : Type} (f : γ → Phrase) (u : List Token) : Prop := ∃ v a, Derives (f a) (u ++ v)

variable {γ : Type} {f : γ → Phrase} {u v : List Token}

theorem Opens.of_append (h : Opens f (u ++ v)) : Opens f u := by
  obtain ⟨w, a, d⟩ := h
  exact ⟨v ++ w, a, by rwa [← List.append_assoc]⟩

theorem Derives.opens_nil {a : γ} (d : Derives (f a) u) : Opens f [] := ⟨u, a, d⟩

theorem Derives.opens {a : γ} (d : Derives (f a) u) : Opens f u := ⟨[], a, by rwa [List.append_nil]⟩

/-- Some token of a kind, to complete a phrase with: the grammar asks for no more. -/
def sample (k : Kind) : Token := ⟨k, "", .null, 1, 1⟩

@[simp] theorem kind_sample (k : Kind) : (sample k).kind = k := rfl

theorem Parenthesized.of_opening {opening : Token} (ho : opening.kind = .lparen) (v : List Token) :
    Parenthesized v (opening :: (v ++ [sample .rparen])) := ⟨_, _, ho, rfl, rfl⟩

theorem derives_null (level : Level) :
    Derives (phraseAt level (.literal .null)) [sample .nullWord] :=
  derives_level_iff.2 (.inr (.inr (.nullWord rfl)))

/-- Whatever an operator takes, there is such an operand. -/
theorem Operation.derives_null (o : Operation) :
    Derives (o.operand (.literal .null)) [sample .nullWord] := by
  cases o with
  | logical => exact Grammar.derives_null .any
  | equality => exact Grammar.derives_null .comparison
  | comparison => exact derives_binary_iff.2 (Grammar.derives_null .operand)
  | arithmetic => exact Grammar.derives_null .operand

/-- A parenthesis may open wherever an expression may stand. -/
theorem opens_lparen {opening : Token} (ho : opening.kind = .lparen) (level : Level) :
    Opens (phraseAt level) [opening] := by
  have d : Derives (.predicate (.unary (sample .notWord) (.literal .null)))
      (opening :: ([sample .notWord, sample .nullWord] ++ [sample .rparen])) :=
    .predicate (.inl rfl) (derives_null .any) (.of_opening ho _)
  exact ⟨_, _, derives_level_iff.2 (.inl ⟨.predicate, by cases level <;> rfl, d⟩)⟩

section Forms

variable {opening head : Token}

/-- Behind some operands may stand one more. -/
theorem opens_operation {o : Operation} (ho : opening.kind = .lparen)
    (operator : head.kind ∈ o.operators) (operands : List (List Token × Expr))
    (each : ∀ x ∈ operands, Derives (o.operand x.2) x.1) (h : Opens o.operand u) :
    Opens (.operation o) ([opening, head] ++ (words operands ++ u)) := by
  obtain ⟨v, e, d⟩ := h
  -- With one operand more behind it there are two at least.
  obtain ⟨first, second, others, all⟩ : ∃ first second others,
      operands ++ [(u ++ v, e), ([sample .nullWord], .literal .null)] =
        first :: second :: others := by
    match operands with
    | [] => exact ⟨_, _, _, rfl⟩
    | [_] => exact ⟨_, _, _, rfl⟩
    | _ :: _ :: _ => exact ⟨_, _, _, rfl⟩
  have each : ∀ x ∈ first :: second :: others, Derives (o.operand x.2) x.1 := by
    rw [← all]
    simpa [or_imp, forall_and, d, o.derives_null] using fun a b => each (a, b)
  simp only [List.forall_mem_cons] at each
  have whole := Derives.operation operator each.1 each.2.1 each.2.2 (.of_opening ho _)
  have tokens : first.1 ++ second.1 ++ words others =
      words operands ++ (u ++ v ++ [sample .nullWord]) := by
    have := congrArg words all
    simpa using this.symm
  rw [tokens] at whole
  exact ⟨v ++ [sample .nullWord, sample .rparen], _, by simpa using whole⟩

theorem opens_body {parts : List (List Token × Expr)}
    (each : ∀ x ∈ parts, Derives (.expression x.2) x.1) (h : Opens .expression u) :
    Opens .body (words parts ++ u) := by
  obtain ⟨v, e, d⟩ := h
  have : Derives (.body (trees (parts ++ [(u ++ v, e)]))) (words (parts ++ [(u ++ v, e)])) :=
    .body (by simpa [or_imp, forall_and, d] using fun a b => each (a, b))
  exact ⟨v, _, by simpa using this⟩

theorem opens_program {parts : List (List Token × Expr)}
    (each : ∀ x ∈ parts, Derives (.expression x.2) x.1) (h : Opens .expression u) :
    Opens .program (words parts ++ u) := by
  obtain ⟨v, e, d⟩ := h
  have : Derives (.program (trees (parts ++ [(u ++ v, e)]))) (words (parts ++ [(u ++ v, e)])) :=
    .program (by simpa [or_imp, forall_and, d] using fun a b => each (a, b))
  exact ⟨v, _, by simpa using this⟩

theorem derives_body_nil : Derives (.body []) [] := @Derives.body [] (by simp)

theorem opens_binding_nil : Opens .binding [] :=
  ⟨[sample .identifier, sample .nullWord], _, .binding rfl (derives_null .any)⟩

theorem opens_binding {name : Token} (kind : name.kind = .identifier) (h : Opens .expression u) :
    Opens .binding (name :: u) := by
  obtain ⟨v, e, d⟩ := h
  exact ⟨v, _, .binding kind d⟩

theorem opens_letIn {bracket closing : Token} (ho : opening.kind = .lparen)
    (operator : head.kind = .letWord) (opens : bracket.kind = .lbracket)
    {bindings : List (List Token × Binding Expr)} (some : bindings ≠ [])
    (each : ∀ x ∈ bindings, Derives (.binding x.2) x.1) (closes : closing.kind = .rbracket)
    (h : Opens .body u) :
    Opens .letIn ([opening, head] ++ ([bracket] ++ (words bindings ++ ([closing] ++ u)))) := by
  obtain ⟨v, es, d⟩ := h
  have := Derives.letIn operator opens some each closes d (.of_opening ho _)
  exact ⟨v ++ [sample .rparen], _, by simpa using this⟩

/-- Behind some bindings may stand one more. -/
theorem opens_bindings {bracket : Token} (ho : opening.kind = .lparen)
    (operator : head.kind = .letWord) (opens : bracket.kind = .lbracket)
    (bindings : List (List Token × Binding Expr))
    (each : ∀ x ∈ bindings, Derives (.binding x.2) x.1) (h : Opens .binding u) :
    Opens .letIn ([opening, head] ++ ([bracket] ++ (words bindings ++ u))) := by
  obtain ⟨v, b, d⟩ := h
  have each : ∀ x ∈ bindings ++ [(u ++ v, b)], Derives (.binding x.2) x.1 := by
    simpa [or_imp, forall_and, d] using fun a b => each (a, b)
  have := opens_letIn ho operator opens (by simp) each (kind_sample .rbracket)
    derives_body_nil.opens
  exact .of_append (v := v ++ [sample .rbracket]) (by simpa using this)

theorem opens_predicate (ho : opening.kind = .lparen)
    (operator : head.kind = .notWord ∨ head.kind = .isTrue) (h : Opens .expression u) :
    Opens .predicate ([opening, head] ++ u) := by
  obtain ⟨v, e, d⟩ := h
  have := Derives.predicate operator d (.of_opening ho _)
  exact ⟨v ++ [sample .rparen], _, by simpa using this⟩

theorem opens_print (ho : opening.kind = .lparen)
    (operator : head.kind = .print ∨ head.kind = .println) (h : Opens .body u) :
    Opens .print ([opening, head] ++ u) := by
  obtain ⟨v, es, d⟩ := h
  have := Derives.print operator d (.of_opening ho _)
  exact ⟨v ++ [sample .rparen], _, by simpa using this⟩

theorem opens_else (ho : opening.kind = .lparen) (operator : head.kind = .elseWord)
    (h : Opens .body u) : Opens .otherwise ([opening, head] ++ u) := by
  obtain ⟨v, es, d⟩ := h
  have := Derives.elseBody operator d (.of_opening ho _)
  exact ⟨v ++ [sample .rparen], _, by simpa using this⟩

theorem opens_ifThen {thenOpening thenHead closing : Token} {v w : List Token} {e : Expr}
    {es : List Expr} (ho : opening.kind = .lparen) (operator : head.kind = .ifWord)
    (condition : Derives (.expression e) u) (thenOpens : thenOpening.kind = .lparen)
    (thenOperator : thenHead.kind = .thenWord) (body : Derives (.body es) v)
    (closes : closing.kind = .rparen) (h : Opens .otherwise w) :
    Opens .ifThen ([opening, head] ++ (u ++ ([thenOpening] ++ ([thenHead] ++
      (v ++ ([closing] ++ w)))))) := by
  obtain ⟨x, otherwise, d⟩ := h
  have := Derives.ifThen operator condition thenOperator body
    ⟨thenOpening, closing, thenOpens, closes, rfl⟩ d (.of_opening ho _)
  exact ⟨x ++ [sample .rparen], _, by simpa using this⟩

theorem opens_thenBody {thenOpening thenHead : Token} {v : List Token} {e : Expr}
    (ho : opening.kind = .lparen) (operator : head.kind = .ifWord)
    (condition : Derives (.expression e) u) (thenOpens : thenOpening.kind = .lparen)
    (thenOperator : thenHead.kind = .thenWord) (h : Opens .body v) :
    Opens .ifThen ([opening, head] ++ (u ++ ([thenOpening] ++ ([thenHead] ++ v)))) := by
  obtain ⟨w, es, d⟩ := h
  have := opens_ifThen ho operator condition thenOpens thenOperator d (kind_sample .rparen)
    Derives.elseAbsent.opens
  exact .of_append (v := w ++ [sample .rparen]) (by simpa using this)

theorem opens_condition (ho : opening.kind = .lparen) (operator : head.kind = .ifWord)
    (h : Opens .expression u) : Opens .ifThen ([opening, head] ++ u) := by
  obtain ⟨v, e, d⟩ := h
  have := opens_thenBody ho operator d (kind_sample .lparen) (kind_sample .thenWord)
    derives_body_nil.opens
  exact .of_append (v := v ++ [sample .lparen, sample .thenWord]) (by simpa using this)

theorem opens_clause (ho : opening.kind = .lparen) {e : Expr}
    (condition : Derives (.expression e) u) (h : Opens .body v) :
    Opens .clause ([opening] ++ (u ++ v)) := by
  obtain ⟨w, es, d⟩ := h
  have := Derives.clause condition d (.of_opening ho _)
  exact ⟨w ++ [sample .rparen], _, by simpa using this⟩

theorem opens_clauseCondition (ho : opening.kind = .lparen) (h : Opens .expression u) :
    Opens .clause ([opening] ++ u) := by
  obtain ⟨v, e, d⟩ := h
  have := opens_clause ho d derives_body_nil.opens
  exact .of_append (v := v) (by simpa using this)

theorem opens_cond (ho : opening.kind = .lparen) (operator : head.kind = .condWord)
    {clauses : List (List Token × Clause Expr)} (some : clauses ≠ [])
    (each : ∀ x ∈ clauses, Derives (.clause x.2) x.1) (h : Opens .otherwise u) :
    Opens .cond ([opening, head] ++ (words clauses ++ u)) := by
  obtain ⟨v, otherwise, d⟩ := h
  have := Derives.cond operator some each d (.of_opening ho _)
  exact ⟨v ++ [sample .rparen], _, by simpa using this⟩

theorem opens_clause_nil : Opens .clause [] :=
  (opens_clauseCondition (kind_sample .lparen) (derives_null .any).opens_nil).of_append (u := [])

/-- Behind some clauses may stand one more. -/
theorem opens_clauses (ho : opening.kind = .lparen) (operator : head.kind = .condWord)
    (clauses : List (List Token × Clause Expr)) (each : ∀ x ∈ clauses, Derives (.clause x.2) x.1)
    (h : Opens .clause u) : Opens .cond ([opening, head] ++ (words clauses ++ u)) := by
  obtain ⟨v, c, d⟩ := h
  have each : ∀ x ∈ clauses ++ [(u ++ v, c)], Derives (.clause x.2) x.1 := by
    simpa [or_imp, forall_and, d] using fun a b => each (a, b)
  have := opens_cond ho operator (by simp) each Derives.elseAbsent.opens
  exact .of_append (v := v) (by simpa using this)

end Forms

/-! ### The end of a text -/

theorem Parenthesized.forall_kind_ne_eof {v w : List Token} (h : Parenthesized v w)
    (inside : ∀ t ∈ v, t.kind ≠ .eof) : ∀ t ∈ w, t.kind ≠ .eof := by
  obtain ⟨opening, closing, ho, hc, rfl⟩ := h
  simp only [List.mem_cons, List.mem_append, List.not_mem_nil, or_false]
  rintro t (rfl | h | rfl)
  · simp [ho]
  · exact inside t h
  · simp [hc]

/-- The token that ends a text is no part of a phrase. -/
theorem Derives.kind_ne_eof {p : Phrase} {w : List Token} (d : Derives p w) :
    ∀ t ∈ w, t.kind ≠ .eof := by
  have head {t : Token} {ks : List Kind} (h : t.kind ∈ ks) (none : .eof ∉ ks) : t.kind ≠ .eof :=
    fun eof => none (eof ▸ h)
  induction d with
  | alternative _ _ ih => exact ih
  | program _ ih | body _ ih =>
    intro t h
    obtain ⟨x, hx, h⟩ := mem_words.1 h
    exact ih x hx t h
  | @operation o _ _ _ _ _ _ _ operator _ _ _ form left right each =>
    refine form.forall_kind_ne_eof ?_
    have := head operator (by cases o <;> decide)
    simp only [List.mem_cons, List.mem_append, mem_words]
    rintro t (rfl | (h | h) | ⟨x, hx, h⟩)
    · exact this
    · exact left t h
    · exact right t h
    · exact each x hx t h
  | signed kind _ _ ih =>
    refine List.forall_mem_cons.2 ⟨?_, ih⟩
    rcases kind with h | h <;> simp [h]
  | predicate operator _ form ih =>
    refine form.forall_kind_ne_eof (List.forall_mem_cons.2 ⟨?_, ih⟩)
    rcases operator with h | h <;> simp [h]
  | constant kind =>
    rcases kind with h | h <;> simp [h]
  | identifier kind | trueWord kind | falseWord kind | nullWord kind => simp [kind]
  | letIn operator opens _ _ closes _ form each body =>
    refine form.forall_kind_ne_eof ?_
    simp only [List.mem_cons, List.mem_append, mem_words]
    rintro t (rfl | rfl | ⟨x, hx, h⟩ | rfl | h)
    · simp [operator]
    · simp [opens]
    · exact each x hx t h
    · simp [closes]
    · exact body t h
  | binding kind _ ih => exact List.forall_mem_cons.2 ⟨by simp [kind], ih⟩
  | print operator _ form ih =>
    refine form.forall_kind_ne_eof (List.forall_mem_cons.2 ⟨?_, ih⟩)
    rcases operator with h | h <;> simp [h]
  | ifThen operator _ thenOperator _ thenParts _ form condition body otherwise =>
    have inner := thenParts.forall_kind_ne_eof
      (List.forall_mem_cons.2 ⟨by simp [thenOperator], body⟩)
    refine form.forall_kind_ne_eof ?_
    simp only [List.mem_cons, List.mem_append]
    rintro t (rfl | (h | h) | h)
    · simp [operator]
    · exact condition t h
    · exact inner t h
    · exact otherwise t h
  | elseAbsent => simp
  | elseBody operator _ form ih =>
    exact form.forall_kind_ne_eof (List.forall_mem_cons.2 ⟨by simp [operator], ih⟩)
  | cond operator _ _ _ form each otherwise =>
    refine form.forall_kind_ne_eof ?_
    simp only [List.mem_cons, List.mem_append, mem_words]
    rintro t (rfl | ⟨x, hx, h⟩ | h)
    · simp [operator]
    · exact each x hx t h
    · exact otherwise t h
  | clause _ _ form condition body =>
    refine form.forall_kind_ne_eof ?_
    simp only [List.mem_append]
    rintro t (h | h)
    · exact condition t h
    · exact body t h

end Lisplet.Grammar
