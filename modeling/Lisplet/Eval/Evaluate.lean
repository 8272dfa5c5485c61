import Lisplet.Eval.Operator
import Lisplet.Eval.Run
import Lisplet.Expr.Basic

/-!
# Evaluation of expressions

`evaluate` gives the value of an expression in a scope, with `room` for that many expressions
evaluated inside each other; where the room is used up it halts.  A body has the value of its last
expression, and a body without expressions is null.  The values of a `let` are evaluated in the very
scope that its names are defined in, one after the other, so each sees the names before it.
-/

namespace Lisplet

namespace Run

/-- Evaluates a body; the given value is that of the expression before it. -/
def body (eval : Expr → Run Value) : Value → List Expr → Run Value
  | before, [] => pure before
  | _, e :: es => do body eval (← eval e) es

/-- Evaluates expressions in order and prints the value of each, followed by the given text. -/
def printEach (eval : Expr → Run Value) (ending : String) : List Expr → Run Unit
  | [] => pure ()
  | e :: es => do
    let value ← eval e
    write (value.display ++ ending)
    printEach eval ending es

/-- Defines names in order, each as the value of its expression. -/
def bindEach (eval : Expr → Run Value) : List (Binding Expr) → Run Unit
  | [] => pure ()
  | b :: bs => do
    define b.name.lexeme (← eval b.value)
    bindEach eval bs

/-- The body of an else, or null if there is none. -/
def otherwise (eval : Expr → Run Value) : Option (List Expr) → Run Value
  | none => pure .null
  | some es => body eval .null es

/-- Evaluates the body of the first clause whose condition holds, or the else body if none does. -/
def firstClause (eval : Expr → Run Value) (elseBody : Option (List Expr)) :
    List (Clause Expr) → Run Value
  | [] => otherwise eval elseBody
  | c :: cs => do
    if (← eval c.condition).isTruthy then body eval .null c.body else firstClause eval elseBody cs

end Run

/-- What a printing form writes after each value. -/
def lineEnding (operator : Token) : String := if operator.kind = .println then "\n" else ""

/-- The value of an expression. -/
def evaluate : Nat → Expr → Run Value
  | 0, _ => Run.halt .tooDeep
  | room + 1, e =>
    let eval := evaluate room
    match e with
    | .literal value => pure value
    | .identifier name => Run.lookup name
    | .unary operator right => do
      let value ← eval right
      Run.lift (applyUnary operator value)
    | .binary operator first second => do
      let a ← eval first
      let b ← eval second
      Run.lift (applyBinary operator a b)
    | .logical operator first second => do
      let a ← eval first
      if decides operator a then pure a else eval second
    | .print operator content => do
      Run.printEach eval (lineEnding operator) content
      pure .null
    | .letIn bindings content => Run.inChild do
      Run.bindEach eval bindings
      Run.body eval .null content
    | .ifThen condition thenBody elseBody => do
      if (← eval condition).isTruthy then Run.body eval .null thenBody
      else Run.otherwise eval elseBody
    | .cond clauses elseBody => Run.firstClause eval elseBody clauses

/-- Evaluates the expressions of a program in order.  The first one that halts is the last one. -/
def interpret (room : Nat) : List Expr → Run Unit
  | [] => pure ()
  | e :: es => do
    let _ ← evaluate room e
    interpret room es

/-- How each expression of a program ends, up to the first one that halts. -/
def outcomes (room : Nat) : Scope → List Expr → List (Outcome Value)
  | _, [] => []
  | s, e :: es =>
    let first := evaluate room e s
    match first.result with
    | .ok _ => first :: outcomes room first.scope es
    | .error _ => [first]

end Lisplet
