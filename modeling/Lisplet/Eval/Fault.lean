import Lisplet.Token.Basic

/-!
# What can go wrong in evaluation

A `Fault` is a reason for which an evaluation ends without a value, and the token to blame.
-/

namespace Lisplet

/-- A reason for which an evaluation has no value. -/
inductive FaultCause where
  | undefinedIdentifier
  /-- The operand of a sign is no number. -/
  | signOfNoNumber
  /-- An operand of an arithmetic operator is no number. -/
  | noNumbers
  /-- The operands of a comparison, of these types, are neither two numbers nor two strings. -/
  | incomparable (first second : String)
  | divisionByZero
deriving DecidableEq

/-- A cause and the token to blame for it. -/
structure Fault where
  token : Token
  cause : FaultCause
deriving DecidableEq

/-- What is told of a fault. -/
def Fault.message (f : Fault) : String :=
  let lexeme := f.token.lexeme
  match f.cause with
  | .undefinedIdentifier => "Undefined identifier '" ++ lexeme ++ "'"
  | .signOfNoNumber => "Expected number after unary operator \"" ++ lexeme ++ "\""
  | .noNumbers => "Binary operator \"" ++ lexeme ++ "\" only operates on numbers"
  | .incomparable first second =>
    "Expected the operands to operator '" ++ lexeme ++
      "' to be of type 'number' or 'string' but got '" ++ first ++ "' and '" ++ second ++
      "' instead"
  | .divisionByZero => "Cannot divide by zero"

/-- Why an evaluation ends without a value. -/
inductive Halt where
  | fault (f : Fault)
  | tooDeep
deriving DecidableEq

end Lisplet
