import Lisplet.Number.Text
import Lisplet.Text.Quoted

/-!
# Values

What an expression evaluates to: null, a boolean, a number or a string.  Values have no identity:
they are compared, ordered and printed by what they are.
-/

namespace Lisplet

/-- A value of the language. -/
inductive Value where
  | null
  | boolean (b : Bool)
  | number (x : Number)
  | string (s : String)
deriving DecidableEq

namespace Value

/-- The name of a value's type in error messages. -/
def typeName : Value → String
  | null => "null"
  | boolean _ => "boolean"
  | number _ => "number"
  | string _ => "string"

/-- Null and both zeros are false, booleans are themselves, and everything else is true. -/
def isTruthy : Value → Bool
  | null => false
  | boolean b => b
  | number x => !x.isZero
  | string _ => true

/-- Equality of values: different types are never equal, numbers are equal by place. -/
def sameAs : Value → Value → Bool
  | null, null => true
  | boolean a, boolean b => a == b
  | number a, number b => a.sameAs b
  | string a, string b => a == b
  | _, _ => false

/-- What printing a value writes. -/
def display : Value → String
  | null => "null"
  | boolean b => if b then "true" else "false"
  | number x => x.display
  | string s => s

/-- How a value is shown as the literal of a token or a syntax tree. -/
def text : Value → String
  | null => "None"
  | boolean b => if b then "True" else "False"
  | number x => x.text
  | string s => Text.quoted s

end Value

end Lisplet
