import Lisplet.Token.Kind

/-!
# Forms and levels

A form is an expression in parentheses, told apart by the kind of the token after the opening one.
Not every form may stand everywhere: a comparison has operands that are no comparisons, and so on.
A `Level` says which forms an operand may be.
-/

namespace Lisplet

/-- The forms of the language, operators that may stand in the same places taken together. -/
inductive Form where
  | letIn
  | print
  | ifThen
  | cond
  | logical
  | equality
  | comparison
  | arithmetic
  | predicate
deriving DecidableEq

/-- The form that a token after an opening parenthesis begins. -/
def Form.ofHead? : Kind → Option Form
  | .letWord => some letIn
  | .print | .println => some print
  | .ifWord => some ifThen
  | .condWord => some cond
  | .andWord | .orWord => some logical
  | .equal | .notEqual => some equality
  | .greater | .greaterEqual | .less | .lessEqual => some comparison
  | .plus | .minus | .star | .slash | .doubleSlash | .percent => some arithmetic
  | .notWord | .isTrue => some predicate
  | _ => none

/-- Where an expression stands. -/
inductive Level where
  /-- Where any expression may stand. -/
  | any
  /-- As an operand of an equality. -/
  | comparison
  /-- As an operand of a comparison or of arithmetic. -/
  | operand
deriving DecidableEq

/-- Which forms may stand at a level. -/
def Level.admits : Level → Form → Bool
  | any, _ => true
  | comparison, f => f == .comparison || f == .arithmetic || f == .predicate
  | operand, f => f == .arithmetic || f == .predicate

/-- The kinds of tokens that an expression may begin with. -/
def Kind.startsExpression : Kind → Bool
  | lparen | number | minus | plus | trueWord | falseWord | nullWord | identifier | string => true
  | _ => false

/-- The signs. -/
def Kind.isSign : Kind → Bool
  | plus | minus => true
  | _ => false

end Lisplet
