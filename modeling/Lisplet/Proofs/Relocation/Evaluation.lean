import Lisplet.Eval.Evaluate
import Lisplet.Proofs.Relocation.Basic

/-!
# Evaluation of relocated expressions

Evaluation reads the kinds, lexemes and literals of tokens, never their places.  So a relocated
expression prints the same, has the same value and leaves the same scope; and where it faults, the
token to blame is the relocated one (`evaluate_relocate`, `interpret_relocate`).
-/

namespace Lisplet

variable (f : Relocation)

/-! ### Outcomes -/

/-- The fault with its token relocated. -/
def Fault.relocate (f : Relocation) (fault : Fault) : Fault := { fault with token := f fault.token }

/-- The halt with its token, if it has one, relocated. -/
def Halt.relocate (f : Relocation) : Halt → Halt
  | .fault x => .fault (x.relocate f)
  | .tooDeep => .tooDeep

/-- What is told of a fault does not depend on the place of its token. -/
@[simp] theorem Fault.message_relocate (fault : Fault) :
    (fault.relocate f).message = fault.message := by
  simp [message, relocate]

/-- The outcome with the token to blame relocated. -/
def Outcome.relocate {α : Type} (f : Relocation) (o : Outcome α) : Outcome α :=
  { o with result := o.result.mapError (Halt.relocate f) }

namespace Run

variable {α β : Type}

/-- The evaluation with the token to blame relocated. -/
def relocate (f : Relocation) (x : Run α) : Run α := fun s => (x s).relocate f

@[simp] theorem relocate_pure (a : α) : (pure a : Run α).relocate f = pure a := rfl

@[simp] theorem relocate_halt (h : Halt) : (halt h : Run α).relocate f = halt (h.relocate f) := rfl

@[simp] theorem relocate_write (text : String) : (write text).relocate f = write text := rfl

@[simp] theorem relocate_define (name : String) (value : Value) :
    (define name value).relocate f = define name value := rfl

@[simp] theorem relocate_inChild (x : Run α) :
    (inChild x).relocate f = inChild (x.relocate f) := rfl

@[simp] theorem relocate_lookup (name : Token) : (lookup name).relocate f = lookup (f name) := by
  funext s
  simp only [relocate, lookup, f.lexeme_move]
  split <;> rfl

@[simp] theorem relocate_bind (x : Run α) (k : α → Run β) :
    (x >>= k).relocate f = x.relocate f >>= fun a => (k a).relocate f := by
  funext s
  simp only [relocate, bind, Outcome.relocate]
  cases (x s).result <;> rfl

theorem relocate_ite {c : Prop} [Decidable c] (x y : Run α) :
    (if c then x else y).relocate f = if c then x.relocate f else y.relocate f := by
  split <;> rfl

@[simp] theorem relocate_lift (r : Except Fault α) :
    (lift r).relocate f = lift (r.mapError (Fault.relocate f)) := by
  cases r <;> rfl

end Run

/-! ### Operators -/

theorem applyComparison_relocate (operator : Token) (first second : Value) :
    applyComparison (f operator) first second =
      (applyComparison operator first second).mapError (Fault.relocate f) := by
  unfold applyComparison
  split <;> simp [Fault.relocate]

theorem applyArithmetic_relocate (operator : Token) (x y : Number) :
    applyArithmetic (f operator) x y =
      (applyArithmetic operator x y).mapError (Fault.relocate f) := by
  simp only [applyArithmetic, f.kind_move]
  split <;> try rfl
  split <;> rfl

theorem applyBinary_relocate (operator : Token) (first second : Value) :
    applyBinary (f operator) first second =
      (applyBinary operator first second).mapError (Fault.relocate f) := by
  simp only [applyBinary, f.kind_move]
  split <;> try rfl
  · exact applyComparison_relocate f operator first second
  · exact applyComparison_relocate f operator first second
  · exact applyComparison_relocate f operator first second
  · exact applyComparison_relocate f operator first second
  · split
    · rw [applyArithmetic_relocate]
      cases applyArithmetic operator _ _ <;> rfl
    · rfl

theorem applyUnary_relocate (operator : Token) (right : Value) :
    applyUnary (f operator) right =
      (applyUnary operator right).mapError (Fault.relocate f) := by
  simp only [applyUnary, f.kind_move]
  split <;> try rfl
  split <;> rfl

theorem decides_relocate (operator : Token) (first : Value) :
    decides (f operator) first = decides operator first := by
  simp only [decides, f.kind_move]

/-! ### Expressions -/

namespace Run

variable {f} {eval eval' : Expr → Run Value}

theorem body_relocate (h : ∀ e, eval' (e.relocate f) = (eval e).relocate f) (before : Value)
    (es : List Expr) :
    body eval' before (es.map (Expr.relocate f)) = (body eval before es).relocate f := by
  induction es generalizing before with
  | nil => rfl
  | cons e es ih => simp only [List.map_cons, body, relocate_bind, h, ih]

theorem printEach_relocate (h : ∀ e, eval' (e.relocate f) = (eval e).relocate f) (ending : String)
    (es : List Expr) :
    printEach eval' ending (es.map (Expr.relocate f)) = (printEach eval ending es).relocate f := by
  induction es with
  | nil => rfl
  | cons e es ih => simp only [List.map_cons, printEach, relocate_bind, relocate_write, h, ih]

theorem bindEach_relocate (h : ∀ e, eval' (e.relocate f) = (eval e).relocate f)
    (bs : List (Binding Expr)) :
    bindEach eval' (bs.map (Binding.relocate f (Expr.relocate f))) =
      (bindEach eval bs).relocate f := by
  induction bs with
  | nil => rfl
  | cons b bs ih =>
    simp only [List.map_cons, bindEach, Binding.relocate, relocate_bind, relocate_define, h, ih,
      f.lexeme_move]

theorem otherwise_relocate (h : ∀ e, eval' (e.relocate f) = (eval e).relocate f)
    (elseBody : Option (List Expr)) :
    otherwise eval' (elseBody.map (List.map (Expr.relocate f))) =
      (otherwise eval elseBody).relocate f := by
  cases elseBody with
  | none => rfl
  | some es => exact body_relocate h .null es

theorem firstClause_relocate (h : ∀ e, eval' (e.relocate f) = (eval e).relocate f)
    (elseBody : Option (List Expr)) (cs : List (Clause Expr)) :
    firstClause eval' (elseBody.map (List.map (Expr.relocate f)))
        (cs.map (Clause.map (Expr.relocate f))) =
      (firstClause eval elseBody cs).relocate f := by
  induction cs with
  | nil => exact otherwise_relocate h elseBody
  | cons c cs ih =>
    simp only [List.map_cons, firstClause, Clause.map, relocate_bind, relocate_ite, h, ih,
      body_relocate h]

end Run

/-- A relocated expression evaluates to what the expression does, the token to blame relocated. -/
theorem evaluate_relocate (room : Nat) (e : Expr) :
    evaluate room (e.relocate f) = (evaluate room e).relocate f := by
  induction room generalizing e with
  | zero => rfl
  | succ room ih =>
    cases e with
    | literal value => rfl
    | identifier name => exact (Run.relocate_lookup f name).symm
    | unary operator right =>
      simp only [Expr.relocate, evaluate, Run.relocate_bind, Run.relocate_lift, ih,
        applyUnary_relocate]
    | binary operator first second =>
      simp only [Expr.relocate, evaluate, Run.relocate_bind, Run.relocate_lift, ih,
        applyBinary_relocate]
    | logical operator first second =>
      simp only [Expr.relocate, evaluate, Run.relocate_bind, Run.relocate_ite, Run.relocate_pure,
        ih, decides_relocate]
    | print operator body =>
      simp only [Expr.relocate, evaluate, Expr.relocateAll_eq_map, Run.relocate_bind,
        Run.relocate_pure, Run.printEach_relocate ih, lineEnding, f.kind_move]
    | letIn bindings body =>
      simp only [Expr.relocate, evaluate, Expr.relocateAll_eq_map, Expr.relocateBindings_eq_map,
        Run.relocate_inChild, Run.relocate_bind, Run.bindEach_relocate ih, Run.body_relocate ih]
    | ifThen condition thenBody elseBody =>
      simp only [Expr.relocate, evaluate, Expr.relocateAll_eq_map, Expr.relocateElse_eq_map,
        Run.relocate_bind, Run.relocate_ite, ih, Run.body_relocate ih, Run.otherwise_relocate ih]
    | cond clauses elseBody =>
      simp only [Expr.relocate, evaluate, Expr.relocateElse_eq_map, Expr.relocateClauses_eq_map,
        Run.firstClause_relocate ih]

/-- A relocated program runs as the program does, the token to blame relocated. -/
theorem interpret_relocate (room : Nat) (es : List Expr) :
    interpret room (es.map (Expr.relocate f)) = (interpret room es).relocate f := by
  induction es with
  | nil => rfl
  | cons e es ih => simp only [List.map_cons, interpret, Run.relocate_bind, evaluate_relocate, ih]

end Lisplet
