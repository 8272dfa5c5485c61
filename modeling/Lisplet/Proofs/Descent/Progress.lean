import Lisplet.Proofs.Descent.Agreement

/-!
# The descent makes progress

From every position of a list of tokens whose last one ends the text, every nonterminal comes to an
end, although nothing bounds its recursion and its loops: it stops at a violation, or it has a
result and stands at a later position (`Descent.Advances`).  It never looks where there is no token,
and it never passes the first token that ends the text (`descent_advances`).  What is read is what
the parser reads, which therefore has room enough if it has as much as there are tokens.
-/

namespace Lisplet

open Grammar

namespace Descent

variable {α : Type} {tokens : TokenList} {d : Descent α} {p : Parser α} {ts : Tokens} {i : Nat}

/-- From the position on, the descent comes to an end: to a result or to a violation, at a position
that is neither before it nor behind the end of the text. -/
def Ends (d : Descent α) (tokens : TokenList) (i : Nat) : Prop :=
  ∃ (outcome : Except ParseError α) (j : Nat),
    d.run i = some (outcome.mapError .violation, j) ∧ i ≤ j ∧ j ≤ endFrom tokens i

/-- The descent ends, and with a result only at a later position. -/
structure Advances (d : Descent α) (tokens : TokenList) (i : Nat) : Prop where
  ends : d.Ends tokens i
  lt : ∀ {a j}, d.run i = some (.ok a, j) → i < j

/-! ### From the parser -/

theorem Follows.exists_outcome (h : Follows tokens d p ts) (hi : ts.LeftAt tokens i)
    (calm : p ts ≠ .error .tooDeep) : ∃ (outcome : Except ParseError α) (j : Nat),
      d.run i = some (outcome.mapError .violation, j) ∧ i ≤ j ∧ j ≤ endFrom tokens i ∧
        (p ts).map Prod.fst = outcome.mapError .error := by
  match hp : p ts with
  | .ok (a, rest) =>
    obtain ⟨j, hd, -, within⟩ := h.ok hi hp
    exact ⟨.ok a, j, hd, within.le, within.le_endFrom, rfl⟩
  | .error (.error e) =>
    obtain ⟨j, hd, within⟩ := h.error hi hp
    exact ⟨.error e, j, hd, within.le, within.le_endFrom, rfl⟩
  | .error .tooDeep => exact absurd hp calm

theorem Follows.ends (h : Follows tokens d p ts) (hi : ts.LeftAt tokens i)
    (calm : p ts ≠ .error .tooDeep) : d.Ends tokens i := by
  obtain ⟨outcome, j, run, le, within, -⟩ := h.exists_outcome hi calm
  exact ⟨outcome, j, run, le, within⟩

/-- Where fewer tokens are left behind a result, the position is a later one. -/
theorem Follows.advances (h : Follows tokens d p ts) (hi : ts.LeftAt tokens i)
    (calm : p ts ≠ .error .tooDeep)
    (shrinks : ∀ {a rest}, p ts = .ok (a, rest) → rest.ahead.length < ts.ahead.length) :
    d.Advances tokens i := by
  refine ⟨h.ends hi calm, fun {a j} hd => ?_⟩
  match hp : p ts with
  | .ok (a', rest) =>
    obtain ⟨j', hd', hj, -⟩ := h.ok hi hp
    obtain ⟨-, rfl⟩ : (Except.ok a' : Except DescentStop α) = .ok a ∧ j' = j := by
      simpa using hd'.symm.trans hd
    have := hi.length_eq
    have := hj.length_eq
    have := shrinks hp
    omega
  | .error (.error e) =>
    obtain ⟨j', hd', -⟩ := h.error hi hp
    rw [hd'] at hd
    cases hd
  | .error .tooDeep => exact absurd hp calm

section Nonterminals

variable (hi : ts.LeftAt tokens i)

include hi

theorem advances_among {admits : Form → Bool} {d : Descent Expr}
    (h : Follows tokens d (Parser.among admits (ts.ahead.length + 1)) ts) : d.Advances tokens i :=
  h.advances hi (Parser.among_ne_tooDeep (Nat.lt_succ_self _)) Parser.shrinks_among

theorem advances_opened {form : Form} {d : Descent Expr}
    (h : Follows tokens d (Parser.formOf (Parser.expression ts.ahead.length) form) ts)
    (opened : (tokens.opens form).run i = some (.ok true, i)) : d.Advances tokens i := by
  have hf : Parser.form? ts = some form := by
    simpa using opened.symm.trans (Looks.opens form i hi)
  have every : Level.any.admits form = true := rfl
  exact advances_among hi (h.congr (Parser.among_of_form hf every))

theorem advances_nonterminals : ∀ d ∈ tokens.nonterminals, d.Advances tokens i := by
  have ih := Follows.operand tokens ts.ahead.length
  simp only [TokenList.nonterminals, List.forall_mem_cons, List.not_mem_nil, false_implies,
    implies_true, and_true]
  exact ⟨advances_among hi (.expression ih ts), advances_among hi (.equality ih ts),
    advances_among hi (.comparison ih ts), advances_among hi (.binary ih ts),
    advances_among hi (.unary ih ts), Follows.literal.advances hi
      (Parser.Reads.atom.calm (Nat.lt_succ_self _)) Parser.shrinks_atom⟩

theorem advances_forms : ∀ x ∈ tokens.forms,
    (tokens.opens x.1).run i = some (.ok true, i) → x.2.Advances tokens i := by
  have ih := Follows.operand tokens ts.ahead.length
  simp only [TokenList.forms, List.forall_mem_cons, List.not_mem_nil, false_implies, implies_true,
    and_true]
  exact ⟨advances_opened hi (.letIn ih ts), advances_opened hi (.printed ih ts),
    advances_opened hi (.ifThen ih ts), advances_opened hi (.cond ih ts),
    advances_opened hi (.logical ih ts), advances_opened hi (.operation ih .equality ts),
    advances_opened hi (.operation ih .comparison ts),
    advances_opened hi (.operation ih .arithmetic ts)⟩

theorem advances_parts : tokens.binding.Advances tokens i ∧ tokens.clause.Advances tokens i ∧
    (tokens.body []).Ends tokens i ∧ tokens.elseBody.Ends tokens i := by
  have ih := Follows.operand tokens (ts.ahead.length + 1)
  have reads := Parser.reads_expression (ts.ahead.length + 1) .any
  have enough := Nat.lt_succ_self ts.ahead.length
  exact ⟨(Follows.binding ih ts).advances hi ((Parser.Reads.binding reads).calm enough)
      Parser.shrinks_binding,
    (Follows.clause ih ts).advances hi ((Parser.Reads.clause reads).calm enough)
      Parser.shrinks_clause,
    (Follows.body ih ts).ends hi ((Parser.Reads.body reads).calm enough),
    (Follows.elseBody ih ts).ends hi ((Parser.Reads.elseBody reads).calm enough)⟩

/-- The whole text is read as the parser reads it. -/
theorem program_ends {room : Nat} (enough : ts.ahead.length < room) :
    ∃ (outcome : Except ParseError (List Expr)) (j : Nat),
      (tokens.program []).run i = some (outcome.mapError .violation, j) ∧ i ≤ j ∧
        j ≤ endFrom tokens i ∧ parseWithin room ts = outcome.mapError .error :=
  (Follows.program room ts).exists_outcome hi ((Parser.reads_program room).calm enough)

end Nonterminals

end Descent

open Descent in
/-- **The descent always makes progress and stays inside the tokens.**  Let the last of the tokens
end the text; others before it may do so as well.  From every position, each nonterminal that is
called where an expression or a part of a form is read comes to an end, and so does each form where
it opens: it stops at a violation, or it has a result, and then its position is a later one; a body,
which may be empty, and the `else` of a form, which may be missing, do not fall back.  The position
does not pass the first token from there on that ends the text, and no token is looked for where
there is none.  So the whole text is read to its end or to a violation.

The parser does the same on the stream that is left at the position, if it has the room. -/
theorem descent_advances {tokens : TokenList} {i : Nat} (here : i < tokens.length)
    (last : ∀ t ∈ tokens.getLast?, t.kind = .eof) :
    endFrom tokens i < tokens.length ∧
    (∀ d ∈ tokens.nonterminals, d.Advances tokens i) ∧
    (∀ x ∈ tokens.forms, (tokens.opens x.1).run i = some (.ok true, i) → x.2.Advances tokens i) ∧
    (tokens.binding.Advances tokens i ∧ tokens.clause.Advances tokens i ∧
      (tokens.body []).Ends tokens i ∧ tokens.elseBody.Ends tokens i) ∧
    (∃ ts : Tokens, ts.LeftAt tokens i) ∧ ∀ (ts : Tokens) (room : Nat), ts.LeftAt tokens i →
      (∀ o, Follows tokens (tokens.operand o) (Parser.expression room o.level) ts) ∧
      (ts.ahead.length < room → ∃ (outcome : Except ParseError (List Expr)) (j : Nat),
        (tokens.program []).run i = some (outcome.mapError .violation, j) ∧ i ≤ j ∧
          j ≤ endFrom tokens i ∧ parseWithin room ts = outcome.mapError .error) := by
  obtain ⟨ts, hi⟩ := exists_leftAt here last
  exact ⟨hi.endFrom_lt_length, advances_nonterminals hi, advances_forms hi, advances_parts hi,
    ⟨ts, hi⟩, fun ts room hi =>
      ⟨fun o => .operand tokens room o ts, fun enough => program_ends hi enough⟩⟩

open Descent in
/-- The form `(print x)` is read, and the text ends behind it, whatever comes then. -/
theorem printed_advances :
    let token (k : Kind) (lexeme : String) : Token := ⟨k, lexeme, .null, 1, 1⟩
    let print := token .print "print"
    let x := token .identifier "x"
    let last := token .eof ""
    let ahead := [token .lparen "(", print, x, token .rparen ")", last, x]
    let tokens : TokenList := ahead ++ [last]
    0 < tokens.length ∧ (∀ t ∈ tokens.getLast?, t.kind = .eof) ∧
      (tokens.opens .print).run 0 = some (.ok true, 0) ∧ tokens.printed.Advances tokens 0 ∧
      endFrom tokens 0 = 4 ∧ ∃ j ≤ 4, (tokens.program []).run 0 =
        some (.ok [.print print [.identifier x]], j) := by
  intro token print x last ahead tokens
  have here : 0 < tokens.length := by decide
  have ends : ∀ t ∈ tokens.getLast?, t.kind = .eof := by decide
  have opened : (tokens.opens .print).run 0 = some (.ok true, 0) := rfl
  have stop : endFrom tokens 0 = 4 := by decide
  obtain ⟨-, -, forms, -, -, same⟩ := descent_advances here ends
  have advances : tokens.printed.Advances tokens 0 :=
    forms (.print, tokens.printed) (List.mem_cons_of_mem _ List.mem_cons_self) opened
  refine ⟨here, ends, opened, advances, stop, ?_⟩
  let ts : Tokens := ⟨ahead, last, rfl⟩
  obtain ⟨outcome, j, run, -, le, agrees⟩ := (same ts depthLimit ⟨rfl⟩).2 (by decide)
  have parsed : parseWithin depthLimit ts = .ok [.print print [.identifier x]] := rfl
  cases outcome with
  | ok es =>
    cases parsed.symm.trans agrees
    exact ⟨j, le, run⟩
  | error e => cases parsed.symm.trans agrees

end Lisplet
