import Lisplet.Proofs.Evaluation.Sequence

/-!
# Evaluation with more room

`Run.Approximates x y` says that `y` goes as `x` does wherever `x` has room enough.  It is kept by
all that evaluations are composed of, so an evaluation that has room enough goes the same with more
of it (`approximates_evaluate`).
-/

namespace Lisplet

namespace Run

variable {α β : Type}

/-- Where `x` does not run out of room, `y` prints the same and ends the same in the same scope. -/
def Approximates (x y : Run α) : Prop := ∀ s, (x s).result ≠ .error .tooDeep → y s = x s

variable {x y z : Run α}

theorem approximates_refl (x : Run α) : x.Approximates x := fun _ _ => rfl

theorem approximates_of_tooDeep (y : Run α) : (halt .tooDeep : Run α).Approximates y :=
  fun _ room => absurd rfl room

theorem Approximates.bind {k k' : α → Run β} (hx : x.Approximates y)
    (hk : ∀ a, (k a).Approximates (k' a)) : (x >>= k).Approximates (y >>= k') := by
  intro s room
  have first : y s = x s := hx s fun deep => room (by simp only [Bind.bind, deep])
  simp only [Bind.bind, first] at room ⊢
  cases hr : (x s).result with
  | error halt => rfl
  | ok a =>
    simp only [hr] at room
    simp only [hk a _ room]

theorem Approximates.ite {c : Prop} [Decidable c] {x' y' : Run α} (hx : x.Approximates x')
    (hy : y.Approximates y') :
    (if c then x else y).Approximates (if c then x' else y') := by
  split
  · exact hx
  · exact hy

theorem Approximates.inChild (h : x.Approximates y) :
    (inChild x).Approximates (inChild y) := by
  intro s room
  simp only [Run.inChild, h s.child room]

/-! ### Expressions -/

section Parts

variable {eval eval' : Expr → Run Value} (h : ∀ e, (eval e).Approximates (eval' e))
include h

theorem approximates_body (before : Value) (es : List Expr) :
    (body eval before es).Approximates (body eval' before es) := by
  induction es generalizing before with
  | nil => exact approximates_refl _
  | cons e es ih => exact (h e).bind ih

theorem approximates_printEach (ending : String) (es : List Expr) :
    (printEach eval ending es).Approximates (printEach eval' ending es) := by
  induction es with
  | nil => exact approximates_refl _
  | cons e es ih => exact (h e).bind fun _ => (approximates_refl _).bind fun _ => ih

theorem approximates_bindEach (bs : List (Binding Expr)) :
    (bindEach eval bs).Approximates (bindEach eval' bs) := by
  induction bs with
  | nil => exact approximates_refl _
  | cons b bs ih => exact (h b.value).bind fun _ => (approximates_refl _).bind fun _ => ih

theorem approximates_otherwise (elseBody : Option (List Expr)) :
    (otherwise eval elseBody).Approximates (otherwise eval' elseBody) := by
  cases elseBody with
  | none => exact approximates_refl _
  | some es => exact approximates_body h .null es

theorem approximates_firstClause (elseBody : Option (List Expr)) (cs : List (Clause Expr)) :
    (firstClause eval elseBody cs).Approximates (firstClause eval' elseBody cs) := by
  induction cs with
  | nil => exact approximates_otherwise h elseBody
  | cons c cs ih =>
    exact (h c.condition).bind fun _ => (approximates_body h .null c.body).ite ih

end Parts

end Run

open Run in
/-- An evaluation that has room enough goes the same with more. -/
theorem approximates_evaluate {room room' : Nat} (le : room ≤ room') (e : Expr) :
    (evaluate room e).Approximates (evaluate room' e) := by
  induction room generalizing room' e with
  | zero => exact approximates_of_tooDeep _
  | succ room ih =>
    obtain ⟨room', rfl⟩ : ∃ n, room' = n + 1 := ⟨room' - 1, by omega⟩
    have more : ∀ e, (evaluate room e).Approximates (evaluate room' e) :=
      ih (Nat.le_of_succ_le_succ le)
    cases e with
    | literal value => exact approximates_refl _
    | identifier name => exact approximates_refl _
    | unary operator right => exact (more right).bind fun _ => approximates_refl _
    | binary operator first second =>
      exact (more first).bind fun _ => (more second).bind fun _ => approximates_refl _
    | logical operator first second =>
      exact (more first).bind fun _ => (approximates_refl _).ite (more second)
    | print operator content =>
      exact (approximates_printEach more _ content).bind fun _ => approximates_refl _
    | letIn bindings content =>
      exact ((approximates_bindEach more bindings).bind fun _ =>
        approximates_body more .null content).inChild
    | ifThen condition thenBody elseBody =>
      exact (more condition).bind fun _ =>
        (approximates_body more .null thenBody).ite (approximates_otherwise more elseBody)
    | cond clauses elseBody => exact approximates_firstClause more elseBody clauses

/-- Wherever there is room enough, it does not matter how much. -/
theorem evaluate_eq_of_shallow {room room' : Nat} {e : Expr} {s : Scope}
    (h : (evaluate room e s).result ≠ .error .tooDeep)
    (h' : (evaluate room' e s).result ≠ .error .tooDeep) :
    evaluate room' e s = evaluate room e s := by
  rcases Nat.le_total room room' with le | le
  · exact approximates_evaluate le e s h
  · exact (approximates_evaluate le e s h').symm

end Lisplet
