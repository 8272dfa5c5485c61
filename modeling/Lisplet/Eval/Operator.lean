import Lisplet.Number.Arithmetic
import Lisplet.Eval.Fault

/-!
# Operators on values

What an operator makes of the values of its operands.  Equality and truth are defined for all
values, comparisons for two numbers or two strings, arithmetic for numbers.
-/

namespace Lisplet

/-- Whether a comparison holds, given the order. -/
def comparisonHolds {α : Type} (lt le : α → α → Bool) (kind : Kind) (a b : α) : Bool :=
  match kind with
  | .greater => lt b a
  | .greaterEqual => le b a
  | .less => lt a b
  | _ => le a b

/-- A comparison of two numbers, or of two strings by their characters. -/
def applyComparison (operator : Token) (first second : Value) : Except Fault Value :=
  match first, second with
  | .number x, .number y => .ok (.boolean (comparisonHolds Number.lt Number.le operator.kind x y))
  | .string s, .string t =>
    .ok (.boolean (comparisonHolds (fun a b => decide (a < b)) (fun a b => !decide (b < a))
      operator.kind s t))
  | _, _ => .error ⟨operator, .incomparable first.typeName second.typeName⟩

/-- An arithmetic operator on two numbers. -/
def applyArithmetic (operator : Token) (x y : Number) : Except Fault Number :=
  match operator.kind with
  | .plus => .ok (x.add y)
  | .minus => .ok (x.sub y)
  | .star => .ok (x.mul y)
  | .percent => .ok (x.rem y)
  | kind =>
    if y.isZero then .error ⟨operator, .divisionByZero⟩
    else .ok (if kind = .doubleSlash then (x.div y).floor else x.div y)

/-- A binary operator on the values of its operands. -/
def applyBinary (operator : Token) (first second : Value) : Except Fault Value :=
  match operator.kind with
  | .equal => .ok (.boolean (first.sameAs second))
  | .notEqual => .ok (.boolean (!first.sameAs second))
  | .greater | .greaterEqual | .less | .lessEqual => applyComparison operator first second
  | _ =>
    match first, second with
    | .number x, .number y => (applyArithmetic operator x y).map Value.number
    | _, _ => .error ⟨operator, .noNumbers⟩

/-- A sign or a predicate on the value of its operand. -/
def applyUnary (operator : Token) (right : Value) : Except Fault Value :=
  match operator.kind with
  | .notWord => .ok (.boolean (!right.isTruthy))
  | .isTrue => .ok (.boolean right.isTruthy)
  | kind =>
    match right with
    | .number x => .ok (.number (if kind = .minus then x.neg else x))
    | _ => .error ⟨operator, .signOfNoNumber⟩

/-- Whether the first operand of a conjunction or disjunction already is its value. -/
def decides (operator : Token) (first : Value) : Bool :=
  if operator.kind = .orWord then first.isTruthy else !first.isTruthy

/-! ### Operands that an operator is not defined for -/

section Refused

variable {operator : Token} {first second right : Value} {f : Fault}

theorem fault_of_applyComparison (refused : applyComparison operator first second = .error f) :
    f.token = operator ∧ f.cause ≠ .undefinedIdentifier := by
  unfold applyComparison at refused
  split at refused <;> cases refused
  exact ⟨rfl, nofun⟩

theorem fault_of_applyArithmetic {x y : Number}
    (refused : applyArithmetic operator x y = .error f) :
    f.token = operator ∧ f.cause ≠ .undefinedIdentifier := by
  unfold applyArithmetic at refused
  split at refused
  case h_5 => split at refused <;> cases refused; exact ⟨rfl, nofun⟩
  all_goals cases refused

/-- An operator that refuses its operands is itself to blame, and never for a name. -/
theorem fault_of_applyBinary (refused : applyBinary operator first second = .error f) :
    f.token = operator ∧ f.cause ≠ .undefinedIdentifier := by
  unfold applyBinary at refused
  split at refused
  case h_7 =>
    split at refused
    · rename_i x y
      cases h : applyArithmetic operator x y with
      | ok z => rw [h] at refused; cases refused
      | error f' =>
        rw [h] at refused
        cases refused
        exact fault_of_applyArithmetic h
    · cases refused
      exact ⟨rfl, nofun⟩
  case h_1 | h_2 => cases refused
  all_goals exact fault_of_applyComparison refused

theorem fault_of_applyUnary (refused : applyUnary operator right = .error f) :
    f.token = operator ∧ f.cause ≠ .undefinedIdentifier := by
  unfold applyUnary at refused
  split at refused
  case h_3 => split at refused <;> cases refused; exact ⟨rfl, nofun⟩
  all_goals cases refused

end Refused

end Lisplet
