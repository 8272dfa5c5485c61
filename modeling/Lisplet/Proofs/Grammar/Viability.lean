import Lisplet.Proofs.Grammar.Consumption
import Lisplet.Proofs.Grammar.Violations

/-!
# What stands before a violation

Tokens are `Viable` if they can be continued to a program that is accepted.  Where a program is
refused, the tokens up to the one that the parser has come to are viable.  So the token that is
blamed is the first violation of the grammar wherever it is that one.  Where an expression is
missing, the parser may blame the token behind instead; then what stands before the blamed token is
not viable any more (`parseWithin_violation`), as in `) x`, where the name is blamed and not the
parenthesis.
-/

namespace Lisplet

open Grammar

namespace Parser

variable {room : Nat} {level : Level} {ts : Tokens}

/-! ### Room for everything -/

/-- Reads an expression at a level, with room for as many nested ones as there are tokens. -/
def unbounded (level : Level) : Parser Expr :=
  fun ts => expression (ts.ahead.length + 1) level ts

theorem reads_unbounded (n : Nat) (level : Level) :
    Reads n (unbounded level) fun w _ e => Derives (phraseAt level e) w where
  sound h := (reads_expression _ level).sound h
  complete rest _ d := (reads_expression _ level).complete rest d
  calm {ts} _ := (reads_expression (ts.ahead.length + 1) level).calm (Nat.lt_succ_self _)

/-- A parser that never finds expressions nested too deeply reads whatever there is to be read. -/
theorem Reads.eq_ok {α : Type} {p : Parser α} {R : List Token → Tokens → α → Prop}
    (hp : ∀ n, Reads n p R) {w : List Token} {rest : Tokens} {a : α} (h : R w rest a) :
    p (rest.prepend w) = .ok (a, rest) :=
  ((hp 0).complete rest h).resolve_right ((hp _).calm (Nat.lt_succ_self _))

/-- Where no expression begins, none is read, whatever stands behind. -/
theorem refuses_unbounded (level : Level) {t : Token} (h : t.kind.startsExpression = false) :
    Refuses (unbounded level) [] t := by
  rintro rest rfl ⟨e, rest'⟩ hr
  obtain ⟨w, hw, d⟩ := (reads_unbounded 0 level).sound hr
  obtain ⟨t, v, rfl, ht⟩ := d.starts (by cases level <;> trivial)
  have same : rest.current = t := congrArg Tokens.current hw
  rw [same, ht] at h
  cases h

/-- Behind the head of a form an expression goes on as the form does. -/
theorem refuses_form {form : Form} {opening head : Token} (ho : opening.kind = .lparen)
    (hf : Form.ofHead? head.kind = some form) (admits : level.admits form = true) {u : List Token}
    {t : Token} (h : Refuses (inside unbounded form head) u t) :
    Refuses (unbounded level) ([opening, head] ++ u) t := by
  rintro s same ⟨e, rest⟩ hr
  rw [unbounded, ← Tokens.prepend_prepend, expression_form ho hf admits] at hr
  obtain ⟨w, hw, d⟩ := (Reads.inside (reads_expression _) ho hf).sound hr
  refine h s same (e, rest) ?_
  rw [hw]
  exact Reads.eq_ok (fun n => Reads.inside (reads_unbounded n) ho hf) d

theorem prepend_cons_inj {s s' : Tokens} {t t' : Token} {u v : List Token} :
    s.prepend (t :: u) = s'.prepend (t' :: v) ↔ t = t' ∧ s.prepend u = s'.prepend v := by
  simp [Tokens.prepend, and_assoc]

/-- Behind a sign an expression goes on as the signed one does. -/
theorem refuses_signed {sign : Token} (hs : sign.kind.isSign = true) {u : List Token} {t : Token}
    (h : Refuses (unbounded .any >>= fun right => pure (Expr.unary sign right)) u t) :
    Refuses (unbounded level) ([sign] ++ u) t := by
  rintro s same ⟨e, rest⟩ hr
  obtain ⟨w, hw, d⟩ := (reads_unbounded 0 level).sound hr
  rcases derives_level_iff.1 d with ⟨form, -, d⟩ | d | d
  · obtain ⟨opening, head, v, rfl, ho, -⟩ := d.exists_head
    obtain ⟨rfl, -⟩ := prepend_cons_inj.1 hw
    rw [ho] at hs
    cases hs
  · obtain ⟨sign', right, v, -, -, operand, rfl, rfl⟩ := derives_signed_iff.1 d
    obtain ⟨rfl, behind⟩ := prepend_cons_inj.1 hw
    have behind : s.prepend u = rest.prepend v := behind
    refine h s same (.unary sign right, rest) (bind_ok ?_)
    rw [behind]
    exact Reads.eq_ok (fun n => reads_unbounded n .any) operand
  · obtain ⟨t', single, rfl⟩ := derives_literal_iff.1 d
    obtain ⟨rfl, -⟩ := prepend_cons_inj.1 hw
    unfold single? at single
    split at single <;> simp_all [Kind.isSign]

theorem startsExpression_eq_false_of_single? {t : Token} (none : single? t = none)
    (notOpening : t.kind ≠ .lparen) (notSign : t.kind.isSign = false) :
    t.kind.startsExpression = false := by
  unfold single? at none
  cases hk : t.kind <;> simp_all [Kind.startsExpression, Kind.isSign]

/-- Where an expression is missing, the current token is blamed, or a name or a character that
belongs to nothing behind it. -/
theorem blamed_of_atom {e : ParseError} (h : atom ts = .error (.error e)) :
    single? ts.current = none ∧ (e.token = ts.current ∨ e.token = ts.following ∧
      (e.problem = .undefinedIdentifier ∧ ts.following.kind = .identifier ∨
        e.problem = .badToken ∧ ts.following.kind = .unidentified)) := by
  cases hs : single? ts.current with
  | some found => rw [atom_of_single? hs] at h; cases h
  | none =>
    rw [atom_of_single?_eq_none hs] at h
    refine ⟨rfl, ?_⟩
    split at h
    · cases h
      exact .inr ⟨rfl, .inl ⟨rfl, ‹_›⟩⟩
    split at h
    · cases h
      exact .inl rfl
    split at h
    · cases h
      exact .inr ⟨rfl, .inr ⟨rfl, ‹_›⟩⟩
    · cases h
      exact .inl rfl

namespace Blames

theorem atom (unsigned : signs ts = false) :
    Blames (phraseAt level) [] Parser.atom (unbounded level) ts := by
  intro e he
  obtain ⟨none, token | ⟨token, problem⟩⟩ := blamed_of_atom he
  · exact ⟨[], ts, rfl, (derives_null level).opens_nil, .inl token⟩
  by_cases hl : ts.current.kind = .lparen
  · -- A parenthesis may open here, so that it is what stands behind that is wrong.
    obtain ⟨opening, rest, rfl⟩ : ∃ (opening : Token) (rest : Tokens),
        ts = rest.prepend [opening] := ⟨_, _, Tokens.eq_prepend_current (by simp [hl])⟩
    exact ⟨[opening], rest, rfl, opens_lparen hl level, .inl token⟩
  · have notSign : ts.current.kind.isSign = false := by
      rcases problem with ⟨-, kind⟩ | ⟨-, kind⟩ <;> simpa [signs, kind, Kind.isSign] using unsigned
    have noStart := startsExpression_eq_false_of_single? none hl notSign
    exact ⟨[], ts, rfl, (derives_null level).opens_nil, .inr ⟨⟨token, problem, noStart⟩,
      refuses_unbounded level noStart⟩⟩

/-- An expression at a level stops at a violation only behind what can be continued to one. -/
theorem expression (room : Nat) (level : Level) (ts : Tokens) :
    Blames (phraseAt level) [] (Parser.expression room level) (unbounded level) ts := by
  induction room generalizing level ts with
  | zero => exact of_ne_error fun _ h => by cases h
  | succ room ih =>
    cases hs : signs ts with
    | true =>
      simp only [signs, Bool.and_eq_true, Bool.not_eq_true'] at hs
      have hk : ts.current.kind ≠ .eof := by
        intro h
        rw [h] at hs
        cases hs.1
      obtain ⟨sign, rest, rfl⟩ : ∃ (sign : Token) (rest : Tokens), ts = rest.prepend [sign] :=
        ⟨_, _, Tokens.eq_prepend_current hk⟩
      obtain ⟨sign', single⟩ : sign.kind.isSign = true ∧ rest.current.kind.isSign = false := hs
      refine behind [sign] (expression_signed sign' single) (fun _ _ => refuses_signed sign') ?_
      refine bind (reads_expression room .any) (reads_unbounded 0 .any) (fun _ => id) ?_
        fun _ _ _ _ _ => pure _
      refine (ih .any rest).mono fun u ts hu opens => ?_
      have signed {e : Expr} {v : List Token} (d : Derives (.expression e) v)
          (behind : ∀ t ∈ v.head?, t.kind.isSign = false) :
          Derives (phraseAt level (.unary sign e)) (sign :: v) :=
        derives_level_iff.2 (.inr (.inl (derives_signed_iff.2
          ⟨sign, e, v, sign', behind, d, rfl, rfl⟩)))
      cases u with
      | nil => exact ⟨_, _, signed (derives_null .any) (by decide)⟩
      | cons t u =>
        obtain ⟨v, e, d⟩ := opens
        rw [hu] at single
        exact ⟨v, _, signed d (by simpa using single)⟩
    | false =>
      obtain ⟨form, opening, head, rest, rfl, ho, hf, admits, -⟩ |
        ⟨sign, rest, rfl, sign', single, -⟩ | literal := expression_cases room level ts
      · refine behind [opening, head] (expression_form ho hf admits)
          (fun _ _ => refuses_form ho hf admits) ?_
        refine (inside (reads_expression room) (reads_unbounded 0) ih ho hf).mono
          fun u _ _ opens => ?_
        obtain ⟨v, e, d⟩ := opens
        exact ⟨v, e, derives_level_iff.2 (.inl ⟨form, admits, d⟩)⟩
      · simp [signs, sign', single] at hs
      · intro e he
        rw [literal] at he
        exact atom hs e he

theorem program (room : Nat) (ts : Tokens) : Blames .program [] (program room)
    (Parser.many (fun ts => !ts.atEnd) (unbounded .any)) ts :=
  many (reads_expression room .any) (reads_unbounded 0 .any)
    (fun rest d => expression_prepend d rest) (fun h => by simp [Tokens.atEnd_of_ahead_eq_nil h])
    (fun same => by simp only [Tokens.atEnd, same.current]) (fun ts _ => expression room .any ts)
    fun _ _ => opens_program

end Blames

end Parser

/-! ### Viable prefixes -/

/-- The tokens can be continued to a text that is accepted, if there is room for its nested
expressions. -/
def Viable (before : List Token) : Prop :=
  ∃ after es, (∀ t ∈ after, t.kind ≠ .eof) ∧ ∀ (ts : Tokens) (room : Nat),
    ts.ahead = before ++ after → ts.ahead.length < room → parseWithin room ts = .ok es

theorem viable_iff_opens {before : List Token} (noEnd : ∀ t ∈ before, t.kind ≠ .eof) :
    Viable before ↔ Opens .program before := by
  constructor
  · rintro ⟨after, es, noEnd', accepted⟩
    let ts : Tokens := ⟨before ++ after, sample .eof, rfl⟩
    have none : ∀ t ∈ ts.ahead, t.kind ≠ .eof := by
      simpa [ts, or_imp, forall_and] using ⟨noEnd, noEnd'⟩
    exact ⟨after, es, derives_of_parseWithin none (accepted ts _ rfl (Nat.lt_succ_self _))⟩
  · rintro ⟨after, es, d⟩
    have noEnd' : ∀ t ∈ after, t.kind ≠ .eof := fun t h => d.kind_ne_eof t (by simp [h])
    refine ⟨after, es, noEnd', fun ts room h lt => ?_⟩
    rw [← h] at d
    exact (parseWithin_of_derives d).resolve_right (parseWithin_ne_tooDeep lt)

/-- **What stands before a violation is viable.**  Where a program is refused, the tokens up to the
one that the parser has come to can be continued to a program that is accepted.  Either this token
is blamed, or else it is one that no expression begins with, where an expression is missing, and a
name or a character that belongs to nothing stands behind it: then that one is blamed, and what
stands before it is not viable. -/
theorem parseWithin_violation {room : Nat} {ts : Tokens} {e : ParseError}
    (noEnd : ∀ t ∈ ts.ahead, t.kind ≠ .eof) (h : parseWithin room ts = .error (.error e)) :
    ∃ before rest, ts = rest.prepend before ∧ Viable before ∧
      (e.token = rest.current ∨
        e.BlamesBehind rest ∧ ¬ Viable (before ++ [rest.current])) := by
  obtain ⟨before, rest, rfl, opens, blamed⟩ :=
    Parser.Blames.program room ts e (parseWithin_eq_error_iff.1 h)
  simp only [Tokens.ahead_prepend, List.mem_append] at noEnd
  refine ⟨before, rest, rfl, (viable_iff_opens fun t ht => noEnd t (.inl ht)).2 opens,
    blamed.imp_right fun ⟨behind, refused⟩ => ⟨behind, ?_⟩⟩
  rintro ⟨after, es, -, accepted⟩
  -- What is accepted is read with room for everything as well.
  let rest' : Tokens := { rest with ahead := rest.current :: after }
  have ahead : (rest'.prepend before).ahead = before ++ [rest.current] ++ after := by simp [rest']
  obtain ⟨last, hr⟩ := parseWithin_eq_ok_iff.1
    (accepted (rest'.prepend before) _ ahead (Nat.lt_succ_self _))
  obtain ⟨w, hw, read⟩ := (Parser.reads_program _).sound hr
  refine refused rest' rfl (es, last) ?_
  rw [hw]
  exact Parser.Reads.eq_ok (fun n => Parser.reads_wholeText (Parser.reads_unbounded n .any)) read

/-- In `( x )` the name is blamed, and a parenthesis may open a program. -/
theorem parseWithin_violation_call :
    let opening : Token := ⟨.lparen, "(", .null, 1, 1⟩
    let name : Token := ⟨.identifier, "x", .null, 1, 3⟩
    let closing : Token := ⟨.rparen, ")", .null, 1, 5⟩
    let ts : Tokens := ⟨[opening, name, closing], ⟨.eof, "", .null, 1, 6⟩, rfl⟩
    (∀ t ∈ ts.ahead, t.kind ≠ .eof) ∧
      parseWithin depthLimit ts = .error (.error ⟨name, .undefinedIdentifier⟩) ∧
      Viable [opening] := by
  intro opening name closing ts
  have noEnd : ∀ t ∈ ts.ahead, t.kind ≠ .eof := by decide
  have refused : parseWithin depthLimit ts = .error (.error ⟨name, .undefinedIdentifier⟩) := rfl
  refine ⟨noEnd, refused, ?_⟩
  obtain ⟨before, rest, stream, viable, blamed⟩ := parseWithin_violation noEnd refused
  have ahead : [opening, name, closing] = before ++ rest.ahead := congrArg Tokens.ahead stream
  have last : rest.last = ts.last := (congrArg Tokens.last stream).symm
  have token : name = rest.ahead.headD rest.last ∨ name = rest.ahead.tail.headD rest.last ∧
      (rest.ahead.headD rest.last).kind.startsExpression = false :=
    blamed.imp_right fun ⟨behind, _⟩ => ⟨behind.token, behind.noStart⟩
  rw [last] at token
  generalize rest.ahead = left at ahead token
  -- Only behind the parenthesis is the name in front of what is left.
  match before with
  | [] =>
    obtain rfl : [opening, name, closing] = left := ahead
    exact absurd token (by decide)
  | [t] =>
    obtain ⟨rfl, -⟩ := List.cons.inj ahead
    exact viable
  | [_, _] =>
    obtain rfl : [closing] = left := (List.cons.inj (List.cons.inj ahead).2).2
    exact absurd token (by decide)
  | _ :: _ :: _ :: before =>
    obtain ⟨-, rfl⟩ : before = [] ∧ left = [] := by
      simpa using (List.cons.inj (List.cons.inj (List.cons.inj ahead).2).2).2
    exact absurd token (by decide)

/-- No program begins with a token that no expression begins with. -/
theorem not_viable_cons {t : Token} (noEnd : t.kind ≠ .eof)
    (noStart : t.kind.startsExpression = false) (v : List Token) : ¬ Viable (t :: v) := by
  rintro ⟨after, es, -, accepted⟩
  let ts : Tokens := ⟨t :: v ++ after, sample .eof, rfl⟩
  obtain ⟨last, hr⟩ := parseWithin_eq_ok_iff.1 (accepted ts _ rfl (Nat.lt_succ_self _))
  obtain ⟨w, hw, d, atEnd⟩ := (Parser.reads_program _).sound hr
  have current : t = (last.prepend w).current := congrArg Tokens.current hw
  cases d with
  | alternative h => cases h
  | @program parts each =>
    cases parts with
    | nil =>
      rw [words_nil, Tokens.prepend_nil] at current
      rw [Tokens.atEnd, ← current, beq_iff_eq] at atEnd
      exact noEnd atEnd
    | cons x parts =>
      obtain ⟨-, starts⟩ := Parser.Reads.startsExpression_prepend (each x List.mem_cons_self)
        trivial (last.prepend (words parts))
      rw [Tokens.prepend_prepend, ← words_cons, Parser.startsExpression, ← current,
        noStart] at starts
      cases starts

/-- In `) x` the name is blamed, but nothing that begins with the parenthesis is a program. -/
theorem parse_closing_name :
    let closing : Token := ⟨.rparen, ")", .null, 1, 1⟩
    let name : Token := ⟨.identifier, "x", .null, 1, 3⟩
    let ts : Tokens := ⟨[closing, name], ⟨.eof, "", .null, 1, 4⟩, rfl⟩
    parse ts = .error (.error ⟨name, .undefinedIdentifier⟩) ∧ ¬ Viable [closing] :=
  ⟨rfl, not_viable_cons (by decide) (by decide) []⟩

end Lisplet
