import Lisplet.Eval.Evaluate

/-!
# What evaluation leaves behind

An evaluation keeps the scope it works in, whether it has a value or halts: names are defined in new
scopes only, and a new scope is left in the end (`scope_evaluate`, `scope_interpret`).  Only the
bindings of a `let` change the scope they work in, and of that only the innermost frame.
-/

namespace Lisplet

namespace Run

variable {α β : Type}

/-- The evaluation ends in the scope it began in. -/
def Keeps (x : Run α) : Prop := ∀ s, (x s).scope = s

/-- The evaluation changes at most the innermost frame. -/
def KeepsEnclosing (x : Run α) : Prop := ∀ s, (x s).scope.enclosing = s.enclosing

theorem Keeps.keepsEnclosing {x : Run α} (h : x.Keeps) : x.KeepsEnclosing := fun s => by rw [h s]

theorem keeps_pure (a : α) : (pure a : Run α).Keeps := fun _ => rfl

theorem keeps_halt (h : Halt) : (halt h : Run α).Keeps := fun _ => rfl

theorem keeps_lift (r : Except Fault α) : (lift r).Keeps := by
  cases r with
  | ok a => exact keeps_pure a
  | error fault => exact keeps_halt (.fault fault)

theorem keeps_write (text : String) : (write text).Keeps := fun _ => rfl

theorem keeps_lookup (name : Token) : (lookup name).Keeps := fun s => by
  unfold lookup
  split <;> rfl

theorem keepsEnclosing_define (name : String) (value : Value) :
    (define name value).KeepsEnclosing := fun _ => rfl

theorem Keeps.bind {x : Run α} {k : α → Run β} (hx : x.Keeps) (hk : ∀ a, (k a).Keeps) :
    (x >>= k).Keeps := by
  intro s
  simp only [Bind.bind, hx s]
  cases (x s).result with
  | error halt => rfl
  | ok a => exact hk a s

theorem KeepsEnclosing.bind {x : Run α} {k : α → Run β} (hx : x.KeepsEnclosing)
    (hk : ∀ a, (k a).KeepsEnclosing) : (x >>= k).KeepsEnclosing := by
  intro s
  simp only [Bind.bind]
  cases (x s).result with
  | error halt => exact hx s
  | ok a => exact (hk a (x s).scope).trans (hx s)

theorem Keeps.ite {c : Prop} [Decidable c] {x y : Run α} (hx : x.Keeps) (hy : y.Keeps) :
    (if c then x else y).Keeps := by
  split
  · exact hx
  · exact hy

/-- Where at most the innermost frame is changed, a new scope is left as if nothing had been. -/
theorem KeepsEnclosing.inChild {x : Run α} (h : x.KeepsEnclosing) : (inChild x).Keeps := by
  intro s
  have enclosing : (x s.child).scope.enclosing = s.frames := h s.child
  simp only [Run.inChild, Scope.parent, enclosing]
  rfl

/-! ### Expressions -/

section Parts

variable {eval : Expr → Run Value} (h : ∀ e, (eval e).Keeps)
include h

theorem keeps_body (before : Value) (es : List Expr) : (body eval before es).Keeps := by
  induction es generalizing before with
  | nil => exact keeps_pure before
  | cons e es ih => exact (h e).bind fun a => ih a

theorem keeps_printEach (ending : String) (es : List Expr) :
    (printEach eval ending es).Keeps := by
  induction es with
  | nil => exact keeps_pure ()
  | cons e es ih => exact (h e).bind fun _ => (keeps_write _).bind fun _ => ih

theorem keepsEnclosing_bindEach (bs : List (Binding Expr)) :
    (bindEach eval bs).KeepsEnclosing := by
  induction bs with
  | nil => exact (keeps_pure ()).keepsEnclosing
  | cons b bs ih =>
    exact (h b.value).keepsEnclosing.bind fun _ => (keepsEnclosing_define _ _).bind fun _ => ih

theorem keeps_otherwise (elseBody : Option (List Expr)) : (otherwise eval elseBody).Keeps := by
  cases elseBody with
  | none => exact keeps_pure Value.null
  | some es => exact keeps_body h .null es

theorem keeps_firstClause (elseBody : Option (List Expr)) (cs : List (Clause Expr)) :
    (firstClause eval elseBody cs).Keeps := by
  induction cs with
  | nil => exact keeps_otherwise h elseBody
  | cons c cs ih => exact (h c.condition).bind fun _ => (keeps_body h .null c.body).ite ih

end Parts

end Run

open Run in
theorem keeps_evaluate (room : Nat) (e : Expr) : (evaluate room e).Keeps := by
  induction room generalizing e with
  | zero => exact keeps_halt .tooDeep
  | succ room ih =>
    cases e with
    | literal value => exact keeps_pure value
    | identifier name => exact keeps_lookup name
    | unary operator right => exact (ih right).bind fun _ => keeps_lift _
    | binary operator first second =>
      exact (ih first).bind fun _ => (ih second).bind fun _ => keeps_lift _
    | logical operator first second =>
      exact (ih first).bind fun _ => (keeps_pure _).ite (ih second)
    | print operator body => exact (keeps_printEach ih _ body).bind fun _ => keeps_pure Value.null
    | letIn bindings body =>
      -- The bindings change the new scope, which is left in the end.
      exact ((keepsEnclosing_bindEach ih bindings).bind fun _ =>
        (keeps_body ih .null body).keepsEnclosing).inChild
    | ifThen condition thenBody elseBody =>
      exact (ih condition).bind fun _ => (keeps_body ih .null thenBody).ite
        (keeps_otherwise ih elseBody)
    | cond clauses elseBody => exact keeps_firstClause ih elseBody clauses

theorem keeps_interpret (room : Nat) (es : List Expr) : (interpret room es).Keeps := by
  induction es with
  | nil => exact Run.keeps_pure ()
  | cons e es ih => exact (keeps_evaluate room e).bind fun _ => ih

/-- The evaluation of an expression leaves the scope as it was. -/
theorem scope_evaluate (room : Nat) (e : Expr) (s : Scope) : (evaluate room e s).scope = s :=
  keeps_evaluate room e s

/-- In one scope, evaluations are told apart by what they print and how they end. -/
theorem evaluate_ext {room room' : Nat} {e e' : Expr} {s : Scope}
    (output : (evaluate room e s).output = (evaluate room' e' s).output)
    (result : (evaluate room e s).result = (evaluate room' e' s).result) :
    evaluate room e s = evaluate room' e' s := by
  have scope := (scope_evaluate room e s).trans (scope_evaluate room' e' s).symm
  cases h : evaluate room e s
  cases h' : evaluate room' e' s
  simp only [h, h'] at output scope result
  rw [output, scope, result]

/-- The evaluation of a program leaves the scope as it was. -/
theorem scope_interpret (room : Nat) (es : List Expr) (s : Scope) :
    (interpret room es s).scope = s :=
  keeps_interpret room es s

end Lisplet
