import Lisplet.Token.Basic

/-!
# Expressions

The syntax tree of a program: one constructor for each form of the language.  A node that can fail
when it is evaluated keeps the token of its operator or name, for the error to point at.
-/

namespace Lisplet

/-- A name and the expression whose value it is bound to. -/
structure Binding (ε : Type) where
  name : Token
  value : ε

/-- A condition and the body to be evaluated where it is the first that holds. -/
structure Clause (ε : Type) where
  condition : ε
  body : List ε

/-- An expression of the language. -/
inductive Expr where
  | literal (value : Value)
  | identifier (name : Token)
  | unary (operator : Token) (right : Expr)
  | binary (operator : Token) (first second : Expr)
  /-- Conjunction or disjunction; the second operand is evaluated only on demand. -/
  | logical (operator : Token) (first second : Expr)
  | print (operator : Token) (body : List Expr)
  | letIn (bindings : List (Binding Expr)) (body : List Expr)
  | ifThen (condition : Expr) (thenBody : List Expr) (elseBody : Option (List Expr))
  | cond (clauses : List (Clause Expr)) (elseBody : Option (List Expr))

end Lisplet
