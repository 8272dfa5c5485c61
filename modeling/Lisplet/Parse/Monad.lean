import Lisplet.Parse.Problem
import Lisplet.Token.Stream

/-!
# Parsers

A parser reads from a token stream and gives a result and the tokens that are left, or stops: at a
violation of the grammar, or where expressions are nested too deeply.
-/

namespace Lisplet

/-- Why a parser stops without a result. -/
inductive ParseStop where
  | error (e : ParseError)
  | tooDeep
deriving DecidableEq

/-- A parser of results of a type. -/
def Parser (α : Type) := Tokens → Except ParseStop (α × Tokens)

namespace Parser

variable {α β : Type}

instance : Monad Parser where
  pure a := fun ts => .ok (a, ts)
  bind p f := fun ts =>
    match p ts with
    | .ok (a, rest) => f a rest
    | .error stop => .error stop

/-- Stops at a violation of the grammar. -/
def fail (problem : ParseProblem) (blamed : Token) : Parser α :=
  fun _ => .error (.error ⟨blamed, problem⟩)

/-- Stops because expressions are nested too deeply. -/
def tooDeep : Parser α := fun _ => .error .tooDeep

/-- The current token. -/
def current : Parser Token := fun ts => .ok (ts.current, ts)

/-- The token after the current one. -/
def following : Parser Token := fun ts => .ok (ts.following, ts)

/-- Reads the current token, unless it ends the text; either way it is the result. -/
def next : Parser Token := fun ts => .ok (ts.current, ts.advance)

/-- Reads a token of the given kind; any other token is a violation. -/
def expect (kind : Kind) (problem : ParseProblem) : Parser Token := do
  let t ← current
  if t.kind = kind then next else fail problem t

/-- Reads items while `more` holds of the tokens that are left, but not more than `fuel` of them. -/
def manyUpTo (more : Tokens → Bool) (item : Parser α) : Nat → Parser (List α)
  | 0 => pure []
  | fuel + 1 => fun ts =>
    if more ts then (do return (← item) :: (← manyUpTo more item fuel)) ts else .ok ([], ts)

/-- Reads items while `more` holds of the tokens that are left.  Since an item takes at least one
token, there are no more items than tokens. -/
def many (more : Tokens → Bool) (item : Parser α) : Parser (List α) :=
  fun ts => manyUpTo more item ts.ahead.length ts

theorem manyUpTo_succ (more : Tokens → Bool) (item : Parser α) (fuel : Nat) (ts : Tokens) :
    manyUpTo more item (fuel + 1) ts =
      if more ts then
        (item >>= fun a => manyUpTo more item fuel >>= fun as => pure (a :: as)) ts
      else .ok ([], ts) := rfl

/-- After a success the sequence goes on with what is left. -/
theorem bind_ok {p : Parser α} {f : α → Parser β} {ts rest : Tokens} {a : α}
    (h : p ts = .ok (a, rest)) : (p >>= f) ts = f a rest := by
  simp only [bind, h]

/-- A sequence stops where its first parser does. -/
theorem bind_error {p : Parser α} {f : α → Parser β} {ts : Tokens} {stop : ParseStop}
    (h : p ts = .error stop) : (p >>= f) ts = .error stop := by
  simp only [bind, h]

/-- A sequence of two parsers succeeds when both do, the second on what the first has left. -/
theorem bind_eq_ok_iff {p : Parser α} {f : α → Parser β} {ts rest : Tokens} {b : β} :
    (p >>= f) ts = .ok (b, rest) ↔
      ∃ a between, p ts = .ok (a, between) ∧ f a between = .ok (b, rest) := by
  cases h : p ts with
  | error stop => simp [bind_error h]
  | ok r =>
    obtain ⟨a, between⟩ := r
    rw [bind_ok h]
    constructor
    · exact fun hf => ⟨a, between, rfl, hf⟩
    · rintro ⟨a', between', hr, hf⟩
      cases hr
      exact hf

/-- A sequence of two parsers stops where the first does, or the second on what the first has left.
-/
theorem bind_eq_error_iff {p : Parser α} {f : α → Parser β} {ts : Tokens} {stop : ParseStop} :
    (p >>= f) ts = .error stop ↔
      p ts = .error stop ∨ ∃ a between, p ts = .ok (a, between) ∧ f a between = .error stop := by
  cases h : p ts with
  | error stop => simp [bind_error h]
  | ok r =>
    obtain ⟨a, between⟩ := r
    rw [bind_ok h]
    constructor
    · exact fun hf => .inr ⟨a, between, rfl, hf⟩
    · rintro (hr | ⟨a', between', hr, hf⟩)
      · cases hr
      · cases hr
        exact hf

end Parser

end Lisplet
