import Lisplet.Eval.Fault
import Lisplet.Scope.Basic

/-!
# Evaluations

An evaluation works in a scope.  It prints, it may define names, and it ends with a result or halts;
what was printed before it halts stays printed.
-/

namespace Lisplet

/-- How an evaluation ends. -/
structure Outcome (α : Type) where
  output : String
  /-- The scope afterwards. -/
  scope : Scope
  result : Except Halt α

/-- An evaluation, given the scope it works in. -/
def Run (α : Type) := Scope → Outcome α

namespace Run

variable {α β : Type}

instance : Monad Run where
  pure a := fun s => ⟨"", s, .ok a⟩
  bind x f := fun s =>
    let first := x s
    match first.result with
    | .error halt => ⟨first.output, first.scope, .error halt⟩
    | .ok a =>
      let second := f a first.scope
      { second with output := first.output ++ second.output }

/-- Ends the evaluation without a result. -/
def halt (h : Halt) : Run α := fun s => ⟨"", s, .error h⟩

/-- A result that needs no evaluation, or a fault. -/
def lift : Except Fault α → Run α
  | .ok a => pure a
  | .error fault => halt (.fault fault)

/-- Prints a text. -/
def write (text : String) : Run Unit := fun s => ⟨text, s, .ok ()⟩

/-- The value of a name. -/
def lookup (name : Token) : Run Value := fun s =>
  match s.get? name.lexeme with
  | some value => ⟨"", s, .ok value⟩
  | none => ⟨"", s, .error (.fault ⟨name, .undefinedIdentifier⟩)⟩

/-- Defines a name in the scope the evaluation works in. -/
def define (name : String) (value : Value) : Run Unit := fun s => ⟨"", s.define name value, .ok ()⟩

/-- Works in a new scope enclosed by the present one, and leaves it in the end, also when halted. -/
def inChild (x : Run α) : Run α := fun s =>
  let inside := x s.child
  { inside with scope := inside.scope.parent }

end Run

end Lisplet
