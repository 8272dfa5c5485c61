import Lisplet.Proofs.Grammar.Consumption

/-!
# Signs before expressions

A sign binds to the whole expression behind it.  Where tokens are a program of one expression, the
same tokens behind a sign are a program of that expression with the sign; but where they begin with
a sign themselves, the first of the two is refused (`parseWithin_behind_sign`).  So `- x` and
`- (+ x y)` are expressions, and `- - x` is none.
-/

namespace Lisplet

open Grammar

namespace Parser

variable {room : Nat} {level : Level} {ts rest : Tokens} {e : Expr} {sign : Token}

/-! ### Programs of one expression -/

/-- Where the text has not ended, a program begins with an expression. -/
theorem program_eq_bind (begins : ts.atEnd = false) : program room ts =
    (expression room .any >>= fun e => manyUpTo (fun ts => !ts.atEnd) (expression room .any)
      (ts.ahead.length - 1) >>= fun es => pure (e :: es)) ts := by
  have some : ts.ahead ≠ [] := fun nothing => by
    rw [Tokens.atEnd_of_ahead_eq_nil nothing] at begins
    cases begins
  obtain ⟨fuel, hf⟩ := Nat.exists_eq_add_one.2 (List.length_pos_iff.2 some)
  rw [program, many, hf, manyUpTo_succ, if_pos (by simp [begins])]
  rfl

/-- An expression that the end of the text follows is a whole program. -/
theorem program_of_expression (begins : ts.atEnd = false)
    (h : expression room .any ts = .ok (e, rest)) (ends : rest.atEnd = true) :
    program room ts = .ok ([e], rest) := by
  rw [program_eq_bind begins, bind_ok h, bind_ok (manyUpTo_of_not_more _ (by simp [ends]))]
  rfl

/-- Where a program has one expression, that one is read and the end of the text follows. -/
theorem expression_of_program (h : program room ts = .ok ([e], rest)) :
    expression room .any ts = .ok (e, rest) ∧ rest.atEnd = true := by
  obtain ⟨w, rfl, d, ends⟩ := (reads_program room).sound h
  have d := derives_program_singleton_iff.1 d
  have begins : (rest.prepend w).atEnd = false := by simpa using (expression_prepend d rest).2
  have read := (reads_expression room .any).complete rest d
  refine ⟨read.resolve_right fun deep => ?_, ends⟩
  rw [program_eq_bind begins, bind_error deep] at h
  cases h

/-! ### Two signs -/

theorem single?_of_isSign (hs : sign.kind.isSign = true) : single? sign = none := by
  unfold single?
  split <;> simp_all [Kind.isSign]

/-- Of two signs the first one begins no expression. -/
theorem expression_of_two_signs (hs : sign.kind.isSign = true)
    (again : ts.current.kind.isSign = true) :
    expression (room + 1) level (ts.prepend [sign]) = .error (.error ⟨sign, .expression⟩) := by
  have kind : sign.kind ≠ .lparen ∧ sign.kind ≠ .unidentified := by
    constructor <;> intro h <;> rw [h] at hs <;> cases hs
  have behind : ts.current.kind ≠ .identifier ∧ ts.current.kind ≠ .unidentified := by
    constructor <;> intro h <;> rw [h] at again <;> cases again
  have form : form? (ts.prepend [sign]) = none := by simp [form?, kind.1]
  have unsigned : signs (ts.prepend [sign]) = false := by simp [signs, again]
  have none : single? (ts.prepend [sign]).current = none := single?_of_isSign hs
  calc expression (room + 1) level (ts.prepend [sign])
      = atom (ts.prepend [sign]) := by
        simp only [expression, form, unsigned, Bool.false_eq_true, if_false]
    _ = .error (.error ⟨sign, .expression⟩) := by
        -- Neither sign is a name or a character that belongs to nothing.
        rw [atom_of_single?_eq_none none, Tokens.following_prepend_cons,
          Tokens.current_prepend_cons, Tokens.prepend_nil, if_neg behind.1, if_neg kind.2,
          if_neg behind.2]
        rfl

end Parser

/-- **A sign may stand before any expression that has none.**  If tokens are parsed as exactly one
expression `e`, then behind a sign they are parsed as exactly one expression as well, `e` with the
sign, unless they begin with a sign: then the sign before them is refused.  This takes room for one
nested expression more; with any other room it is so too, or expressions are nested too deeply. -/
theorem parseWithin_behind_sign {room : Nat} {sign : Token} {ts : Tokens} {e : Expr}
    (kind : sign.kind.isSign = true) (accepted : parseWithin room ts = .ok [e]) (room' : Nat)
    (deeper : room' = room + 1 ∨ parseWithin room' (ts.prepend [sign]) ≠ .error .tooDeep) :
    parseWithin room' (ts.prepend [sign]) =
      if ts.current.kind.isSign then .error (.error ⟨sign, .expression⟩)
      else .ok [.unary sign e] := by
  obtain ⟨rest, hr⟩ := parseWithin_eq_ok_iff.1 accepted
  obtain ⟨read, ends⟩ := Parser.expression_of_program hr
  have begins : (ts.prepend [sign]).atEnd = false :=
    Tokens.atEnd_eq_false fun h => by rw [h] at kind; cases kind
  obtain ⟨room', rfl⟩ : ∃ k, room' = k + 1 := by
    rcases deeper with rfl | shallow
    · exact ⟨room, rfl⟩
    · refine Nat.exists_eq_add_one.2 (Nat.pos_of_ne_zero fun none => shallow ?_)
      rw [none, parseWithin_eq_error_iff, Parser.program_eq_bind begins, Parser.bind_error rfl]
  split
  · rename_i again
    rw [parseWithin_eq_error_iff, Parser.program_eq_bind begins]
    exact Parser.bind_error (Parser.expression_of_two_signs kind again)
  · rename_i single
    have step : Parser.expression (room' + 1) .any (ts.prepend [sign]) =
        (Parser.expression room' .any >>= fun right => pure (.unary sign right)) ts :=
      Parser.expression_signed kind (by simpa using single)
    have read' : Parser.expression room' .any ts = .ok (e, rest) := by
      rcases deeper with same | shallow
      · obtain rfl : room' = room := by omega
        exact read
      · -- What is derived is read with any room that is enough.
        obtain ⟨w, rfl, d⟩ := (Parser.reads_expression room .any).sound read
        refine ((Parser.reads_expression room' .any).complete rest d).resolve_right
          fun deep => shallow ?_
        rw [parseWithin_eq_error_iff, Parser.program_eq_bind begins]
        exact Parser.bind_error (step.trans (Parser.bind_error deep))
    exact parseWithin_eq_ok_iff.2
      ⟨rest, Parser.program_of_expression begins (step.trans (Parser.bind_ok read')) ends⟩

/-- In `- (+ x y)` the sign stands before the whole sum. -/
theorem parseWithin_behind_sign_sum :
    let token (k : Kind) (lexeme : String) : Token := ⟨k, lexeme, .null, 1, 1⟩
    let sign := token .minus "-"
    let plus := token .plus "+"
    let x := token .identifier "x"
    let y := token .identifier "y"
    let ts : Tokens := ⟨[token .lparen "(", plus, x, y, token .rparen ")"], token .eof "", rfl⟩
    let sum : Expr := .binary plus (.identifier x) (.identifier y)
    parseWithin depthLimit ts = .ok [sum] ∧
      parseWithin depthLimit (ts.prepend [sign]) ≠ .error .tooDeep ∧
      parseWithin depthLimit (ts.prepend [sign]) = .ok [.unary sign sum] := by
  intro token sign plus x y ts sum
  have accepted : parseWithin depthLimit ts = .ok [sum] := rfl
  have shallow : parseWithin depthLimit (ts.prepend [sign]) ≠ .error .tooDeep :=
    parseWithin_ne_tooDeep (by decide)
  exact ⟨accepted, shallow, parseWithin_behind_sign rfl accepted depthLimit (.inr shallow)⟩

/-- The sign before `- x` is refused, while `- x` is an expression. -/
theorem parse_two_signs :
    let minus (column : Int) : Token := ⟨.minus, "-", .null, 1, column⟩
    let name : Token := ⟨.identifier, "x", .null, 1, 5⟩
    let last : Token := ⟨.eof, "", .null, 1, 6⟩
    parse ⟨[minus 3, name], last, rfl⟩ = .ok [.unary (minus 3) (.identifier name)] ∧
      parse ⟨[minus 1, minus 3, name], last, rfl⟩ = .error (.error ⟨minus 1, .expression⟩) :=
  ⟨rfl, rfl⟩

end Lisplet
