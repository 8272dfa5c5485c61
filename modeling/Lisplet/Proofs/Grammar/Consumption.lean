import Lisplet.Proofs.Grammar.Exactness

/-!
# What parsers take

An expression takes a token at least, and so do a binding and a clause, so that fewer are left
behind them (`Parser.shrinks_expression` and the lemmas after it).  Before that come the equations
by which the parser is followed from token to token: of sequences and repetitions, of a literal or a
name, and of an expression of which only some forms are admitted (`Parser.among`).
-/

namespace Lisplet

open Grammar

namespace Parser

variable {α β γ : Type} {p : Parser α} {ts rest : Tokens} {a : α}

/-! ### Sequences and repetitions -/

theorem bind_assoc (p : Parser α) (f : α → Parser β) (g : β → Parser γ) :
    (p >>= f) >>= g = p >>= fun a => f a >>= g := by
  funext ts
  cases h : p ts with
  | error stop => rw [bind_error (bind_error h), bind_error h]
  | ok r => simp only [bind, h]

theorem bind_pure (p : Parser α) : p >>= pure = p := by
  funext ts
  cases h : p ts with
  | error stop => exact bind_error h
  | ok r => exact bind_ok h

/-- One item more is read before the others. -/
theorem manyUpTo_bind {more : Tokens → Bool} {fuel : Nat} (h : more ts = true)
    (f : List α → Parser β) : (manyUpTo more p (fuel + 1) >>= f) ts =
      (p >>= fun a => manyUpTo more p fuel >>= fun as => f (a :: as)) ts := by
  have first : manyUpTo more p (fuel + 1) ts =
      (p >>= fun a => manyUpTo more p fuel >>= fun as => pure (a :: as)) ts := by
    rw [manyUpTo_succ, h]
    rfl
  calc (manyUpTo more p (fuel + 1) >>= f) ts
      = ((p >>= fun a => manyUpTo more p fuel >>= fun as => pure (a :: as)) >>= f) ts := by
        simp only [bind] at first ⊢
        rw [first]
    _ = _ := by
        simp only [bind_assoc]
        rfl

/-- Where there is no item more, nothing is read. -/
theorem manyUpTo_of_not_more {more : Tokens → Bool} (fuel : Nat) (h : more ts = false) :
    manyUpTo more p fuel ts = .ok ([], ts) := by
  cases fuel with
  | zero => rfl
  | succ fuel => rw [manyUpTo_succ, h, if_neg Bool.false_ne_true]

/-! ### Literals and names -/

theorem atom_of_single? {e : Expr} (h : single? ts.current = some e) :
    atom ts = (next >>= fun _ => pure e) ts := by
  rw [atom, bind_ok (show current ts = .ok (ts.current, ts) from rfl), h]

theorem atom_of_single?_eq_none (h : single? ts.current = none) :
    atom ts = (if ts.following.kind = .identifier then fail .undefinedIdentifier ts.following
      else if ts.current.kind = .unidentified then fail .badToken ts.current
      else if ts.following.kind = .unidentified then fail .badToken ts.following
      else fail .expression ts.current : Parser Expr) ts := by
  rw [atom, bind_ok (show current ts = .ok (ts.current, ts) from rfl), h]
  rfl

/-! ### Expressions of some of the forms -/

/-- Reads an expression, but of the forms only some. -/
def among (admits : Form → Bool) (room : Nat) : Parser Expr :=
  fun ts => if (form? ts).all admits then expression room .any ts else atom ts

section Among

variable {room : Nat} {admits admits' : Form → Bool}

theorem among_congr (h : ∀ form, form? ts = some form → admits form = admits' form) :
    among admits room ts = among admits' room ts := by
  cases hf : form? ts with
  | none => simp only [among, hf, Option.all_none]
  | some form => simp only [among, hf, Option.all_some, h form hf]

/-- At a level an expression is of the forms that are admitted there. -/
theorem expression_eq_among {level : Level} :
    expression (room + 1) level ts = among level.admits (room + 1) ts := by
  cases hf : form? ts with
  | none => simp [among, expression, hf]
  | some form =>
    have any : Level.any.admits form = true := rfl
    cases ha : level.admits form <;> simp [among, expression, hf, ha, any]

theorem among_of_form {form : Form} (h : form? ts = some form) (admitted : admits form = true) :
    among admits (room + 1) ts = formOf (expression room) form ts := by
  simp [among, expression, h, admitted, Level.admits]

theorem among_of_signs (h : signs ts = true) :
    among admits (room + 1) ts = signed (expression room .any) ts := by
  have none : form? ts = none := by
    simp only [signs, Bool.and_eq_true] at h
    refine if_neg fun opening => ?_
    rw [opening] at h
    cases h.1
  simp [among, expression, h, none]

theorem among_of_atom (unsigned : signs ts = false)
    (h : ∀ form, form? ts = some form → admits form = false) :
    among admits (room + 1) ts = atom ts := by
  cases hf : form? ts with
  | none => simp [among, expression, hf, unsigned]
  | some form => simp [among, hf, h form hf]

theorem among_ne_tooDeep (h : ts.ahead.length < room) :
    among admits room ts ≠ .error .tooDeep := by
  unfold among
  split
  · exact (reads_expression room .any).calm h
  · exact Reads.atom.calm h

end Among

/-! ### What is left -/

/-- What takes tokens leaves fewer. -/
theorem Reads.length_lt {n : Nat} {R : List Token → Tokens → α → Prop} (h : Reads n p R)
    (ne : ∀ {w rest a}, R w rest a → w ≠ []) (hp : p ts = .ok (a, rest)) :
    rest.ahead.length < ts.ahead.length := by
  obtain ⟨w, rfl, hw⟩ := h.sound hp
  simpa using List.length_pos_iff.2 (ne hw)

section Shrinks

variable {room : Nat} {e : Expr}

theorem shrinks_expression {level : Level} (h : expression room level ts = .ok (e, rest)) :
    rest.ahead.length < ts.ahead.length :=
  (reads_expression room level).length_lt (fun d => d.ne_nil (by cases level <;> trivial)) h

theorem shrinks_atom (h : atom ts = .ok (e, rest)) : rest.ahead.length < ts.ahead.length :=
  (Reads.atom (n := 0)).length_lt (fun d => d.ne_nil trivial) h

theorem shrinks_among {admits : Form → Bool} (h : among admits room ts = .ok (e, rest)) :
    rest.ahead.length < ts.ahead.length := by
  unfold among at h
  split at h
  · exact shrinks_expression h
  · exact shrinks_atom h

theorem shrinks_binding {b : Binding Expr}
    (h : binding (expression room .any) ts = .ok (b, rest)) :
    rest.ahead.length < ts.ahead.length :=
  (Reads.binding (reads_expression room .any)).length_lt (fun d => d.ne_nil trivial) h

theorem shrinks_clause {c : Clause Expr}
    (h : clause (expression room .any) ts = .ok (c, rest)) :
    rest.ahead.length < ts.ahead.length :=
  (Reads.clause (reads_expression room .any)).length_lt (fun d => d.ne_nil trivial) h

end Shrinks

/-- Where the text has ended, no expression begins. -/
theorem atEnd_of_startsExpression (h : startsExpression ts = true) : ts.atEnd = false := by
  cases begins : ts.atEnd with
  | false => rfl
  | true =>
    rw [Tokens.atEnd, beq_iff_eq] at begins
    rw [startsExpression, begins] at h
    cases h

end Parser

end Lisplet
