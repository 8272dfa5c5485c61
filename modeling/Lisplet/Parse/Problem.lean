import Lisplet.Token.Basic

/-!
# What can be wrong with a program's form

The first violation of the grammar ends the reading of a program.  It is a `ParseProblem`, and with
the token to blame a `ParseError`.
-/

namespace Lisplet

/-- A violation of the grammar, named for what was expected. -/
inductive ParseProblem where
  /-- A name stands where it cannot be called. -/
  | undefinedIdentifier
  /-- A character that belongs to nothing. -/
  | badToken
  | expression
  | bindingList
  | firstName
  | name
  | bindingListEnd
  | boundValue (name : String)
  | close (form : String)
  | thenOpening
  | thenWord
  | clause
  | clauseOpening
  | condition
deriving DecidableEq

/-- A violation of the grammar at a token. -/
structure ParseError where
  token : Token
  problem : ParseProblem
deriving DecidableEq

namespace ParseError

/-- What an expression can be, for a token that none starts with. -/
def expressionStarts : String :=
  "\n".intercalate
    [" * An expression starting with '('",
     " * A unary expression starting with '+' or '-'",
     " * String",
     " * Number",
     " * Identifier",
     " * Boolean",
     " * null"]

/-- What is told of a violation. -/
def message (e : ParseError) : String :=
  let got := "'" ++ e.token.lexeme ++ "'"
  match e.problem with
  | .undefinedIdentifier => "Undefined identifier " ++ got
  | .badToken => "Bad token " ++ got
  | .expression =>
    "Expected one of the following but got " ++ got ++ " instead:\n" ++ expressionStarts
  | .bindingList =>
    "Expected a '[' to start the identifier initialization list but got " ++ got ++ " instead"
  | .firstName => "Expected an identifier after '[' but got " ++ got ++ " instead"
  | .name => "Expected an identifier"
  | .bindingListEnd =>
    "Expected a ']' to end the identifier initialization list but got " ++ got ++ " instead"
  | .boundValue name =>
    "Expected an expression after identifier '" ++ name ++ "' but got " ++ got ++ " instead"
  | .close form => "Expression '" ++ form ++ "' is missing a closing ')'"
  | .thenOpening => "Expected '(' to begin 'then' expression"
  | .thenWord => "Expected 'then' expression"
  | .clause => "Expected at least one clause"
  | .clauseOpening => "Expected a '(' to start a clause expression"
  | .condition => "Expected an expression"

end ParseError

end Lisplet
