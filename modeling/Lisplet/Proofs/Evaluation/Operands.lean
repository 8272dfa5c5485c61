import Lisplet.Proofs.Evaluation.Depth
import Lisplet.Proofs.Evaluation.Room
import Lisplet.Proofs.Grammar.Exactness

/-!
# Operators with any number of operands

The parser nests an operator form with more than two operands to the left, so the evaluator only
ever sees two.  What such a form comes to is told by its operands alone: a conjunction or
disjunction evaluates them in order up to the first that decides it (`UpTo`), any other operator
combines the value so far with that of the next operand (`Combines`).  The nested tree, evaluated
with room enough, comes to just that (`evaluate_operation`).

Both sides are compared with a third one, the operands evaluated in a chain (`Operation.chain`): the
tree is evaluated with less room the deeper an operand stands in it, and a value that decides is
tested again at each level on the way out.
-/

namespace Lisplet

open Grammar

/-! ### What operands come to -/

section Outcomes

variable (room : Nat) (s : Scope)

/-- Operands are evaluated in order up to the first that halts or whose value has the given truth,
or else up to the last one; none behind it is evaluated. -/
inductive UpTo (truth : Bool) : List Expr → Outcome Value → Prop where
  | halted {e : Expr} {es : List Expr} {output : String} {halt : Halt}
      (first : evaluate room e s = ⟨output, s, .error halt⟩) :
      UpTo truth (e :: es) ⟨output, s, .error halt⟩
  | decided {e : Expr} {es : List Expr} {output : String} {v : Value}
      (first : evaluate room e s = ⟨output, s, .ok v⟩) (decides : v.isTruthy = truth) :
      UpTo truth (e :: es) ⟨output, s, .ok v⟩
  | last {e : Expr} {output : String} {v : Value}
      (only : evaluate room e s = ⟨output, s, .ok v⟩) : UpTo truth [e] ⟨output, s, .ok v⟩
  | next {e e' : Expr} {es : List Expr} {output output' : String} {v : Value}
      {result : Except Halt Value} (first : evaluate room e s = ⟨output, s, .ok v⟩)
      (undecided : v.isTruthy ≠ truth) (others : UpTo truth (e' :: es) ⟨output', s, result⟩) :
      UpTo truth (e :: e' :: es) ⟨output ++ output', s, result⟩

/-- To the value so far, the operator is applied with the value of one operand after the other, up
to the first operand that halts or that it is not defined for. -/
inductive Accumulates (operator : Token) : Value → List Expr → Outcome Value → Prop where
  | done {a : Value} : Accumulates operator a [] ⟨"", s, .ok a⟩
  | halted {a : Value} {e : Expr} {es : List Expr} {output : String} {halt : Halt}
      (next : evaluate room e s = ⟨output, s, .error halt⟩) :
      Accumulates operator a (e :: es) ⟨output, s, .error halt⟩
  | refused {a b : Value} {e : Expr} {es : List Expr} {output : String} {cause : FaultCause}
      (next : evaluate room e s = ⟨output, s, .ok b⟩)
      (applied : applyBinary operator a b = .error ⟨operator, cause⟩) :
      Accumulates operator a (e :: es) ⟨output, s, .error (.fault ⟨operator, cause⟩)⟩
  | next {a b c : Value} {e : Expr} {es : List Expr} {output output' : String}
      {result : Except Halt Value} (next : evaluate room e s = ⟨output, s, .ok b⟩)
      (applied : applyBinary operator a b = .ok c)
      (others : Accumulates operator c es ⟨output', s, result⟩) :
      Accumulates operator a (e :: es) ⟨output ++ output', s, result⟩

/-- The first operand is evaluated, and the others are combined with its value in order. -/
inductive Combines (operator : Token) : List Expr → Outcome Value → Prop where
  | halted {e : Expr} {es : List Expr} {output : String} {halt : Halt}
      (first : evaluate room e s = ⟨output, s, .error halt⟩) :
      Combines operator (e :: es) ⟨output, s, .error halt⟩
  | next {e : Expr} {es : List Expr} {output output' : String} {a : Value}
      {result : Except Halt Value} (first : evaluate room e s = ⟨output, s, .ok a⟩)
      (others : Accumulates room s operator a es ⟨output', s, result⟩) :
      Combines operator (e :: es) ⟨output ++ output', s, result⟩

end Outcomes

/-- What the form of an operator comes to, by its operands.  A disjunction is decided by the first
that is true, a conjunction by the first that is false. -/
def Grammar.Operation.ComesTo (o : Operation) (operator : Token) (room : Nat) (s : Scope)
    (operands : List Expr) (outcome : Outcome Value) : Prop :=
  match o with
  | .logical => UpTo room s (operator.kind == .orWord) operands outcome
  | _ => Combines room s operator operands outcome

/-! ### Chains -/

namespace Grammar.Operation

variable {room : Nat} {s : Scope} {o : Operation} {operator : Token}

/-- What an operator makes of the value so far and the evaluation of the next operand. -/
def step (o : Operation) (operator : Token) (a : Value) (second : Run Value) : Run Value :=
  match o with
  | .logical => if decides operator a then pure a else second
  | _ => second >>= fun b => Run.lift (applyBinary operator a b)

/-- The operands evaluated one after the other, given the value so far. -/
def chain (o : Operation) (operator : Token) (eval : Expr → Run Value) : Value → List Expr →
    Run Value
  | a, [] => pure a
  | a, e :: es => o.step operator a (eval e) >>= fun b => chain o operator eval b es

theorem evaluate_node (room : Nat) (o : Operation) (operator : Token) (first second : Expr) :
    evaluate (room + 1) (o.node operator first second) =
      evaluate room first >>= fun a => o.step operator a (evaluate room second) := by
  cases o <;> rfl

theorem approximates_step {x y : Run Value} (h : x.Approximates y) (a : Value) :
    (o.step operator a x).Approximates (o.step operator a y) := by
  cases o with
  | logical => exact (Run.approximates_refl _).ite h
  | equality | comparison | arithmetic => exact h.bind fun _ => Run.approximates_refl _

/-- The tree nested to the left is evaluated with no more room for its operands than there is for
the tree. -/
theorem evaluate_foldl_approximates {e : Expr} {x : Run Value}
    (h : ∀ n ≤ room, (evaluate n e).Approximates x) (es : List Expr) :
    ∀ n ≤ room, (evaluate n (es.foldl (o.node operator) e)).Approximates
      (x >>= fun a => o.chain operator (evaluate room) a es) := by
  induction es generalizing e x with
  | nil =>
    have whole : (x >>= fun a => o.chain operator (evaluate room) a []) = x := Run.bind_pure x
    rwa [whole]
  | cons e' es ih =>
    -- The innermost pair is an operand of the rest.
    have pair : ∀ n ≤ room, (evaluate n (o.node operator e e')).Approximates
        (x >>= fun a => o.step operator a (evaluate room e')) := by
      intro n le
      cases n with
      | zero => exact Run.approximates_of_tooDeep _
      | succ n =>
        rw [evaluate_node]
        exact (h n (by omega)).bind fun a =>
          approximates_step (approximates_evaluate (by omega) e') a
    have rest := ih pair
    rwa [Run.bind_assoc] at rest

/-- With room for as many more levels as there are operands, the tree nested to the left is
evaluated as the chain is. -/
theorem approximates_evaluate_foldl {e : Expr} {x : Run Value} {n : Nat} (le : room ≤ n)
    (h : x.Approximates (evaluate n e)) (es : List Expr) :
    (x >>= fun a => o.chain operator (evaluate room) a es).Approximates
      (evaluate (n + es.length) (es.foldl (o.node operator) e)) := by
  induction es generalizing e x n with
  | nil =>
    have whole : (x >>= fun a => o.chain operator (evaluate room) a []) = x := Run.bind_pure x
    rwa [whole]
  | cons e' es ih =>
    have pair : (x >>= fun a => o.step operator a (evaluate room e')).Approximates
        (evaluate (n + 1) (o.node operator e e')) := by
      rw [evaluate_node]
      exact h.bind fun a => approximates_step (approximates_evaluate le e') a
    have rest := ih (Nat.le_succ_of_le le) pair
    rwa [Run.bind_assoc, Nat.succ_add_eq_add_succ] at rest

/-! ### Chains and what operands come to -/

theorem decides_iff {a : Value} :
    decides operator a = true ↔ a.isTruthy = (operator.kind == .orWord) := by
  cases h : a.isTruthy <;> by_cases kind : operator.kind = .orWord <;> simp [decides, kind, h]

/-- A value that decides is tested again for each operand behind it, and stays what it is. -/
theorem chain_of_decides {eval : Expr → Run Value} {a : Value} (h : decides operator a = true)
    (es : List Expr) : logical.chain operator eval a es = pure a := by
  induction es with
  | nil => rfl
  | cons e es ih => rw [chain, step, if_pos h, Run.pure_bind, ih]

theorem chain_of_not_decides {eval : Expr → Run Value} {a : Value} (h : ¬ decides operator a = true)
    (e : Expr) (es : List Expr) : logical.chain operator eval a (e :: es) =
      eval e >>= fun b => logical.chain operator eval b es := by
  rw [chain, step, if_neg h]

theorem chain_of_ne_logical {eval : Expr → Run Value} (ne : o ≠ .logical) (a : Value) (e : Expr)
    (es : List Expr) : o.chain operator eval a (e :: es) =
      eval e >>= fun b => Run.lift (applyBinary operator a b) >>= fun c =>
        o.chain operator eval c es := by
  rw [← Run.bind_assoc]
  cases o with
  | logical => exact absurd rfl ne
  | equality | comparison | arithmetic => rfl

/-- All operands evaluated in a chain; there is at least one. -/
def run (o : Operation) (operator : Token) (eval : Expr → Run Value) : List Expr → Run Value
  | [] => pure .null
  | e :: es => eval e >>= fun a => o.chain operator eval a es

theorem run_of_upTo {es : List Expr} {outcome : Outcome Value}
    (h : UpTo room s (operator.kind == .orWord) es outcome) :
    logical.run operator (evaluate room) es s = outcome := by
  induction h with
  | halted first => exact Run.bind_of_error first
  | decided first decides =>
    exact Run.bind_of_pure first (chain_of_decides (decides_iff.2 decides) _)
  | last only => exact Run.bind_of_pure only rfl
  | next first undecided _ ih =>
    refine Run.bind_of_ok first ?_
    rwa [chain_of_not_decides fun h => undecided (decides_iff.1 h)]

theorem chain_of_accumulates (ne : o ≠ .logical) {a : Value} {es : List Expr}
    {outcome : Outcome Value} (h : Accumulates room s operator a es outcome) :
    o.chain operator (evaluate room) a es s = outcome := by
  induction h with
  | done => rfl
  | halted next =>
    rw [chain_of_ne_logical ne]
    exact Run.bind_of_error next
  | @refused a b e es output cause next applied =>
    rw [chain_of_ne_logical ne]
    have refused : (Run.lift (applyBinary operator a b) >>= fun c =>
        o.chain operator (evaluate room) c es) s = ⟨"", s, .error (.fault ⟨operator, cause⟩)⟩ :=
      Run.bind_of_error (by rw [applied]; rfl)
    rw [Run.bind_of_ok next refused, String.append_empty]
  | next next applied _ ih =>
    rw [chain_of_ne_logical ne]
    refine Run.bind_of_ok next ?_
    rwa [applied, Run.lift, Run.pure_bind]

theorem run_of_combines (ne : o ≠ .logical) {es : List Expr} {outcome : Outcome Value}
    (h : Combines room s operator es outcome) :
    o.run operator (evaluate room) es s = outcome := by
  cases h with
  | halted first => exact Run.bind_of_error first
  | next first others => exact Run.bind_of_ok first (chain_of_accumulates ne others)

theorem run_of_comesTo {es : List Expr} {outcome : Outcome Value}
    (h : o.ComesTo operator room s es outcome) :
    o.run operator (evaluate room) es s = outcome := by
  cases o with
  | logical => exact run_of_upTo h
  | equality | comparison | arithmetic =>
    refine run_of_combines ?_ h
    exact nofun

/-! ### Operands come to something -/

theorem exists_evaluate (room : Nat) (e : Expr) (s : Scope) :
    ∃ output result, evaluate room e s = ⟨output, s, result⟩ := by
  have scope := scope_evaluate room e s
  cases h : evaluate room e s with
  | mk output s' result =>
    rw [h] at scope
    obtain rfl : s' = s := scope
    exact ⟨output, result, rfl⟩

theorem exists_upTo (room : Nat) (s : Scope) (truth : Bool) (e : Expr) (es : List Expr) :
    ∃ outcome, UpTo room s truth (e :: es) outcome ∧ outcome.scope = s := by
  induction es generalizing e with
  | nil =>
    obtain ⟨output, result, first⟩ := exists_evaluate room e s
    cases result with
    | error halt => exact ⟨_, .halted first, rfl⟩
    | ok a => exact ⟨_, .last first, rfl⟩
  | cons e' es ih =>
    obtain ⟨output, result, first⟩ := exists_evaluate room e s
    cases result with
    | error halt => exact ⟨_, .halted first, rfl⟩
    | ok a =>
      by_cases decided : a.isTruthy = truth
      · exact ⟨_, .decided first decided, rfl⟩
      · obtain ⟨⟨output', s', result⟩, others, rfl⟩ := ih e'
        exact ⟨_, .next first decided others, rfl⟩

theorem exists_accumulates (room : Nat) (s : Scope) (operator : Token) (a : Value)
    (es : List Expr) : ∃ outcome, Accumulates room s operator a es outcome ∧ outcome.scope = s := by
  induction es generalizing a with
  | nil => exact ⟨_, .done, rfl⟩
  | cons e es ih =>
    obtain ⟨output, result, next⟩ := exists_evaluate room e s
    cases result with
    | error halt => exact ⟨_, .halted next, rfl⟩
    | ok b =>
      cases applied : applyBinary operator a b with
      | error f =>
        obtain ⟨token, cause⟩ := f
        obtain rfl : token = operator := (fault_of_applyBinary applied).1
        exact ⟨_, .refused next applied, rfl⟩
      | ok c =>
        obtain ⟨⟨output', s', result⟩, others, rfl⟩ := ih c
        exact ⟨_, .next next applied others, rfl⟩

theorem exists_combines (room : Nat) (s : Scope) (operator : Token) (e : Expr) (es : List Expr) :
    ∃ outcome, Combines room s operator (e :: es) outcome := by
  obtain ⟨output, result, first⟩ := exists_evaluate room e s
  cases result with
  | error halt => exact ⟨_, .halted first⟩
  | ok a =>
    obtain ⟨⟨output', s', result⟩, others, rfl⟩ := exists_accumulates room s operator a es
    exact ⟨_, .next first others⟩

/-- The chain of the operands comes to what the operands come to. -/
theorem comesTo_run (o : Operation) (operator : Token) (room : Nat) (s : Scope) (e : Expr)
    (es : List Expr) :
    o.ComesTo operator room s (e :: es) (o.run operator (evaluate room) (e :: es) s) := by
  have comes : ∃ outcome, o.ComesTo operator room s (e :: es) outcome := by
    cases o with
    | logical => exact (exists_upTo room s _ e es).imp fun _ h => h.1
    | equality | comparison | arithmetic => exact exists_combines room s operator e es
  obtain ⟨outcome, h⟩ := comes
  rwa [run_of_comesTo h]

/-! ### Forms -/

/-- The tokens up to `rest` are the form of an operator with the given operands, two at least. -/
structure IsForm (o : Operation) (ts rest : Tokens) (operands : List (List Token × Expr)) :
    Prop where
  two_le : 2 ≤ operands.length
  each : ∀ x ∈ operands, Derives (o.operand x.2) x.1
  tokens : ∃ w, ts = rest.prepend w ∧ Parenthesized (ts.following :: words operands) w

/-- Where an operator form opens, what is read is that form. -/
theorem derives_of_read {level : Level} {ts rest : Tokens} {e : Expr}
    (read : Parser.expression room level ts = .ok (e, rest)) (opens : ts.current.kind = .lparen)
    (head : ts.following.kind ∈ o.operators) :
    ∃ w, ts = rest.prepend w ∧ Derives (.operation o e) w := by
  obtain ⟨w, rfl, d⟩ := (Parser.reads_expression room level).sound read
  refine ⟨w, rfl, ?_⟩
  rcases derives_level_iff.1 d with ⟨form, -, d⟩ | d | d
  · obtain ⟨opening, head', v, rfl, -, hh⟩ := d.exists_head
    have hf : Form.ofHead? head'.kind = some o.form :=
      ofHead?_eq_some_iff.2 ((headsOf_form o).symm ▸ head)
    obtain rfl : form = o.form := Option.some.inj ((ofHead?_eq_some_iff.2 hh).symm.trans hf)
    rwa [phraseOf_form] at d
  · obtain ⟨sign, right, v, hs, -, -, rfl, -⟩ := Parser.derives_signed_iff.1 d
    have hk : sign.kind = .lparen := opens
    rw [hk] at hs
    cases hs
  · obtain ⟨t, hs, rfl⟩ := Parser.derives_literal_iff.1 d
    have hk : t.kind = .lparen := opens
    simp [Parser.single?, hk] at hs

theorem derives_operation_unique {e e' : Expr} {w : List Token} (d : Derives (.operation o e) w)
    (d' : Derives (.operation o e') w) (last : Token) (hl : last.kind = .eof) : e = e' := by
  have program {e : Expr} (d : Derives (.operation o e) w) : Derives (.program [e]) w := by
    have expression : Derives (phraseAt .any e) w :=
      derives_level_iff.2 (.inl ⟨o.form, rfl, by rwa [phraseOf_form]⟩)
    exact derives_program_singleton_iff.2 expression
  have same : [e] = [e'] :=
    @derives_unique ⟨w, last, hl⟩ [e] [e'] (program d) (program d')
  exact List.singleton_inj.1 same

/-- What is read as an operator form is the form of some operands. -/
theorem IsForm.exists_of_read {level : Level} {ts rest : Tokens} {e : Expr}
    (read : Parser.expression room level ts = .ok (e, rest)) (opens : ts.current.kind = .lparen)
    (head : ts.following.kind ∈ o.operators) : ∃ operands, o.IsForm ts rest operands := by
  obtain ⟨w, rfl, d⟩ := derives_of_read read opens head
  cases d with
  | alternative h => cases h
  | @operation _ head' first second u v _ others _ left right each form =>
    have following : (rest.prepend w).following = head' := by
      obtain ⟨opening, closing, -, -, rfl⟩ := form
      rfl
    refine ⟨(u, first) :: (v, second) :: others, by simp, ?_, w, rfl, ?_⟩
    · simp only [List.forall_mem_cons]
      exact ⟨left, right, each⟩
    · simpa only [following, words_cons, List.append_assoc] using form

/-- The tree is that of any operands it is the form of: no tokens have two trees. -/
theorem IsForm.tree_eq {level : Level} {ts rest : Tokens} {e : Expr}
    (read : Parser.expression room level ts = .ok (e, rest)) (opens : ts.current.kind = .lparen)
    (head : ts.following.kind ∈ o.operators) {operands : List (List Token × Expr)}
    (h : o.IsForm ts rest operands) : ∃ first second others,
      trees operands = first :: second :: others ∧
        e = (second :: others).foldl (o.node ts.following) first := by
  obtain ⟨w, hts, d⟩ := derives_of_read read opens head
  obtain ⟨two_le, each, w', hts', form⟩ := h
  obtain rfl : w = w' := by
    have same := congrArg Tokens.ahead (hts.symm.trans hts')
    exact List.append_cancel_right same
  rcases operands with _ | ⟨⟨u, first⟩, _ | ⟨⟨v, second⟩, others⟩⟩
  · exact absurd two_le (by decide)
  · exact absurd two_le (by simp)
  · refine ⟨first, second, trees others, rfl, ?_⟩
    simp only [List.forall_mem_cons] at each
    refine derives_operation_unique d ?_ rest.last rest.last_kind
    refine .operation head each.1 each.2.1 each.2.2 ?_
    simpa only [words_cons, List.append_assoc] using form

end Grammar.Operation

open Grammar.Operation in
/-- **An operator form means what its operands say.**  Where an operator form opens and an
expression is read, what is read is the form of some operands, at least two.  However its operands
are told apart, its tree is evaluated to what they come to, each with as much room as the tree has;
and what they come to is what the tree is evaluated to, with room for one more level for each
operand.  There is room enough where there is room for the levels of the tree. -/
theorem evaluate_operation {o : Operation} {room : Nat} {level : Level} {ts rest : Tokens}
    {e : Expr} (read : Parser.expression room level ts = .ok (e, rest))
    (opens : ts.current.kind = .lparen) (operator : ts.following.kind ∈ o.operators) :
    (∃ operands, o.IsForm ts rest operands) ∧
      ∀ operands, o.IsForm ts rest operands → ∀ (limit : Nat) (s : Scope),
        (e.outline.depth ≤ limit → (evaluate limit e s).result ≠ .error .tooDeep) ∧
        ((evaluate limit e s).result ≠ .error .tooDeep →
          o.ComesTo ts.following limit s (trees operands) (evaluate limit e s)) ∧
        ∀ outcome, o.ComesTo ts.following limit s (trees operands) outcome →
          outcome.result ≠ .error .tooDeep →
            evaluate (limit + operands.length) e s = outcome := by
  refine ⟨IsForm.exists_of_read read opens operator, fun operands h limit s => ?_⟩
  obtain ⟨first, second, others, operandTrees, rfl⟩ := h.tree_eq read opens operator
  have count : operands.length = others.length + 2 := by
    have := congrArg List.length operandTrees
    simpa [trees] using this
  rw [operandTrees, count]
  refine ⟨fun levels => shallow_evaluate levels s, fun shallow => ?_,
    fun outcome comes shallow => ?_⟩
  · have same := evaluate_foldl_approximates (fun n le => approximates_evaluate le first)
      (second :: others) limit (Nat.le_refl _) s shallow
    rw [← same]
    exact comesTo_run o ts.following limit s first (second :: others)
  · have chain := run_of_comesTo comes
    rw [← chain] at shallow ⊢
    have enough := approximates_evaluate_foldl (Nat.le_succ limit)
      (approximates_evaluate (Nat.le_succ limit) first) (second :: others) s shallow
    rwa [List.length_cons, Nat.succ_add_eq_add_succ] at enough

/-- In `(and x y z)` the value of `y` decides, and `z` is not looked up. -/
theorem evaluate_and_of_three :
    let token (k : Kind) (lexeme : String) : Token := ⟨k, lexeme, .null, 1, 1⟩
    let conjunction := token .andWord "and"
    let x := token .identifier "x"
    let y := token .identifier "y"
    let z := token .identifier "z"
    let rest : Tokens := ⟨[], token .eof "", rfl⟩
    let ts := rest.prepend [token .lparen "(", conjunction, x, y, z, token .rparen ")"]
    let operands := [([x], Expr.identifier x), ([y], .identifier y), ([z], .identifier z)]
    let e : Expr :=
      .logical conjunction (.logical conjunction (.identifier x) (.identifier y)) (.identifier z)
    let s : Scope := ⟨[("x", .boolean true), ("y", .null)], []⟩
    Parser.expression depthLimit .any ts = .ok (e, rest) ∧ ts.current.kind = .lparen ∧
      ts.following.kind ∈ Operation.logical.operators ∧
      Operation.logical.IsForm ts rest operands ∧ evaluate 4 e s = ⟨"", s, .ok .null⟩ := by
  intro token conjunction x y z rest ts operands e s
  have read : Parser.expression depthLimit .any ts = .ok (e, rest) := rfl
  have opens : ts.current.kind = .lparen := rfl
  have operator : ts.following.kind ∈ Operation.logical.operators := by decide
  have name (t : Token) (h : t.kind = .identifier) : Derives (.expression (.identifier t)) [t] :=
    (@derives_level_iff .any _ _).2 (.inr (.inr (.identifier h)))
  have form : Operation.logical.IsForm ts rest operands := by
    refine ⟨by decide, ?_, _, rfl, token .lparen "(", token .rparen ")", rfl, rfl, rfl⟩
    simp only [operands, List.forall_mem_cons]
    exact ⟨name x rfl, name y rfl, name z rfl, by simp⟩
  have decided : UpTo 1 s false [.identifier y, .identifier z] ⟨"", s, .ok .null⟩ :=
    .decided rfl rfl
  have first : evaluate 1 (.identifier x) s = ⟨"", s, .ok (.boolean true)⟩ := rfl
  have comes : UpTo 1 s false (trees operands) ⟨"", s, .ok .null⟩ :=
    .next first (by decide) decided
  exact ⟨read, opens, operator, form,
    ((evaluate_operation read opens operator).2 operands form 1 s).2.2 _ comes (by simp)⟩

end Lisplet
