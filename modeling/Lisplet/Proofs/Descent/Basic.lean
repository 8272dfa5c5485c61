import Lisplet.Parse.Expression
import Lisplet.Proofs.Grammar.Derivation

/-!
# The descent by position

Here the tokens are a list, and where a reading has come to is a position in it.  A token is looked
up at a position, and a position where there is none stops the reading (`DescentStop.outOfRange`).
Nothing bounds how often a loop is repeated or how deeply expressions are nested, so that a reading
might go on forever; then it has no outcome.

Every nonterminal of the grammar is a `Descent`, and they call each other as the grammar says: an
expression that is no form of its own is read as an equality, then as a comparison, as arithmetic
and as a unary expression, with no token taken in between, and a unary expression may be arithmetic
again.
-/

namespace Lisplet

open Grammar

/-- The tokens of a text, looked up by their positions. -/
abbrev TokenList := List Token

/-- Why a descent stops without a result. -/
inductive DescentStop where
  | violation (e : ParseError)
  /-- There is no token at the position that is looked at. -/
  | outOfRange

/-- A reading of tokens from a position on. -/
abbrev Descent := ExceptT DescentStop (StateT Nat Option)

namespace Descent

variable {α β : Type}

/-- What comes of a descent, and the position it has come to; nothing if it does not end. -/
def run (d : Descent α) (position : Nat) : Option (Except DescentStop α × Nat) := d position

def violation (problem : ParseProblem) (blamed : Token) : Descent α :=
  throw (.violation ⟨blamed, problem⟩)

variable {d : Descent α} {f : α → Descent β} {i j : Nat} {a : α} {stop : DescentStop}

theorem run_bind_ok (hd : d.run i = some (.ok a, j)) : (d >>= f).run i = (f a).run j := by
  change (d.run i >>= fun r => ExceptT.bindCont f r.1 r.2) = _
  rw [hd]
  rfl

theorem run_bind_error (hd : d.run i = some (.error stop, j)) :
    (d >>= f).run i = some (.error stop, j) := by
  change (d.run i >>= fun r => ExceptT.bindCont f r.1 r.2) = _
  rw [hd]
  rfl

end Descent

namespace TokenList

open Descent

/-! ### Single steps -/

def tokenAt (tokens : TokenList) (position : Nat) : Descent Token :=
  match tokens[position]? with
  | some t => return t
  | none => throw .outOfRange

def current (tokens : TokenList) : Descent Token := do tokens.tokenAt (← get)

/-- The token after the current one; the last token if there is none. -/
def following (tokens : TokenList) : Descent Token := do
  tokens.tokenAt (min ((← get) + 1) (tokens.length - 1))

/-- The token before the current one. -/
def previous (tokens : TokenList) : Descent Token := do
  match ← get with
  | 0 => throw .outOfRange
  | position + 1 => tokens.tokenAt position

def atEnd (tokens : TokenList) : Descent Bool := return (← tokens.current).kind == .eof

/-- Takes the current token, unless it ends the text. -/
def next (tokens : TokenList) : Descent Token := do
  if ← tokens.atEnd then tokens.current
  else
    modify (· + 1)
    tokens.previous

def sees (tokens : TokenList) (kinds : Kind → Bool) : Descent Bool :=
  return kinds (← tokens.current).kind

def seesNext (tokens : TokenList) (kinds : Kind → Bool) : Descent Bool :=
  return kinds (← tokens.following).kind

/-- Whether a parenthesis opens here before a token of one of the kinds. -/
def seesOpening (tokens : TokenList) (kinds : List Kind) : Descent Bool := do
  if ← tokens.sees (· == .lparen) then tokens.seesNext kinds.contains else return false

/-- Whether a form opens here. -/
def opens (tokens : TokenList) (form : Form) : Descent Bool := tokens.seesOpening (headsOf form)

/-- Whether the current token is the sign of an expression. -/
def signs (tokens : TokenList) : Descent Bool := do
  if ← tokens.sees Kind.isSign then return !(← tokens.seesNext Kind.isSign) else return false

/-- Takes the current token if it is of one of the kinds. -/
def accept (tokens : TokenList) (kinds : Kind → Bool) : Descent Bool := do
  if ← tokens.sees kinds then
    let _ ← tokens.next
    return true
  else return false

def expect (tokens : TokenList) (kind : Kind) (problem : ParseProblem) : Descent Token := do
  if ← tokens.sees (· == kind) then tokens.next else violation problem (← tokens.current)

def close (tokens : TokenList) (form : String) : Descent Unit := do
  let _ ← tokens.expect .rparen (.close form)

/-! ### Nonterminals

The readings that are repeated carry on what has been found so far. -/

/-- What a keyword stands for by itself. -/
def constant : Kind → Value
  | .trueWord => .boolean true
  | .falseWord => .boolean false
  | _ => .null

def literal (tokens : TokenList) : Descent Expr := do
  if ← tokens.accept [Kind.string, .number].contains then
    return .literal (← tokens.previous).literal
  else if ← tokens.accept [Kind.identifier].contains then
    return .identifier (← tokens.previous)
  else if ← tokens.accept [Kind.trueWord, .falseWord, .nullWord].contains then
    return .literal (constant (← tokens.previous).kind)
  else if ← tokens.seesNext (· == .identifier) then
    violation .undefinedIdentifier (← tokens.following)
  else if ← tokens.sees (· == .unidentified) then violation .badToken (← tokens.current)
  else if ← tokens.seesNext (· == .unidentified) then violation .badToken (← tokens.following)
  else violation .expression (← tokens.current)

mutual

def expression (tokens : TokenList) : Descent Expr := do
  if ← tokens.opens .letIn then tokens |>.letIn
  else if ← tokens.opens .print then tokens |>.printed
  else if ← tokens.opens .ifThen then tokens |>.ifThen
  else if ← tokens.opens .cond then tokens |>.cond
  else if ← tokens.opens .logical then tokens |>.logical
  else tokens |>.equality
partial_fixpoint

def equality (tokens : TokenList) : Descent Expr := do
  if ← tokens.opens .equality then tokens |>.operation .equality else tokens |>.comparison
partial_fixpoint

def comparison (tokens : TokenList) : Descent Expr := do
  if ← tokens.opens .comparison then tokens |>.operation .comparison else tokens |>.binary
partial_fixpoint

def binary (tokens : TokenList) : Descent Expr := do
  if ← tokens.opens .arithmetic then tokens |>.operation .arithmetic else tokens |>.unary
partial_fixpoint

def unary (tokens : TokenList) : Descent Expr := do
  if ← tokens.signs then
    let operator ← tokens.next
    return .unary operator (← tokens |>.expression)
  else if ← tokens.opens .predicate then
    let _ ← tokens.next
    let operator ← tokens.next
    let right ← tokens |>.expression
    tokens.close operator.lexeme
    return .unary operator right
  else if ← tokens.opens .arithmetic then tokens |>.binary
  else tokens.literal
partial_fixpoint

def logical (tokens : TokenList) : Descent Expr := tokens |>.operation .logical
partial_fixpoint

/-- The form of an operator of some sort. -/
def operation (tokens : TokenList) (o : Operation) : Descent Expr := do
  let _ ← tokens.next
  let operator ← tokens.next
  let first ← tokens |>.operand o
  let second ← tokens |>.operand o
  let e ← tokens |>.operands o operator (o.node operator first second)
  tokens.close operator.lexeme
  return e
partial_fixpoint

def operands (tokens : TokenList) (o : Operation) (operator : Token) (e : Expr) :
    Descent Expr := do
  if ← tokens.sees Kind.startsExpression then
    let right ← tokens |>.operand o
    tokens |>.operands o operator (o.node operator e right)
  else return e
partial_fixpoint

def operand (tokens : TokenList) (o : Operation) : Descent Expr :=
  match o with
  | .logical => tokens |>.expression
  | .equality => tokens |>.comparison
  | .comparison => tokens |>.binary
  | .arithmetic => tokens |>.unary
partial_fixpoint

def letIn (tokens : TokenList) : Descent Expr := do
  let _ ← tokens.next
  let _ ← tokens.next
  let _ ← tokens.expect .lbracket .bindingList
  if ← tokens.sees (· == .identifier) then
    let bound ← tokens |>.bindings []
    let content ← tokens |>.body []
    tokens.close "let"
    return .letIn bound content
  else violation .firstName (← tokens.current)
partial_fixpoint

/-- The end of the text ends a list of bindings as well as the closing bracket, which is taken. -/
def bindings (tokens : TokenList) (found : List (Binding Expr)) :
    Descent (List (Binding Expr)) := do
  if ← tokens.accept (· == .rbracket) then return found
  else if ← tokens.atEnd then return found
  else
    let b ← tokens |>.binding
    tokens |>.bindings (found ++ [b])
partial_fixpoint

def binding (tokens : TokenList) : Descent (Binding Expr) := do
  if ← tokens.sees (· == .rparen) then violation .bindingListEnd (← tokens.current)
  else
    let name ← tokens.expect .identifier .name
    if ← tokens.sees Kind.startsExpression then return ⟨name, ← tokens |>.expression⟩
    else violation (.boundValue name.lexeme) (← tokens.current)
partial_fixpoint

def body (tokens : TokenList) (found : List Expr) : Descent (List Expr) := do
  if ← tokens.sees Kind.startsExpression then
    if ← tokens.atEnd then return found
    else
      let e ← tokens |>.expression
      tokens |>.body (found ++ [e])
  else return found
partial_fixpoint

def printed (tokens : TokenList) : Descent Expr := do
  let _ ← tokens.next
  let operator ← tokens.next
  let content ← tokens |>.body []
  tokens.close operator.lexeme
  return .print operator content
partial_fixpoint

def ifThen (tokens : TokenList) : Descent Expr := do
  let _ ← tokens.next
  let _ ← tokens.next
  let condition ← tokens |>.expression
  let _ ← tokens.expect .lparen .thenOpening
  let _ ← tokens.expect .thenWord .thenWord
  let thenBody ← tokens |>.body []
  tokens.close "then"
  let otherwise ← tokens |>.elseBody
  tokens.close "if"
  return .ifThen condition thenBody otherwise
partial_fixpoint

def cond (tokens : TokenList) : Descent Expr := do
  let _ ← tokens.next
  let _ ← tokens.next
  let found ← tokens |>.clauses []
  if found.isEmpty then violation .clause (← tokens.current)
  else
    let otherwise ← tokens |>.elseBody
    tokens.close "cond"
    return .cond found otherwise
partial_fixpoint

def clauses (tokens : TokenList) (found : List (Clause Expr)) :
    Descent (List (Clause Expr)) := do
  if ← tokens.sees Kind.startsExpression then
    if ← tokens.seesOpening [.elseWord] then return found
    else if ← tokens.atEnd then return found
    else
      let c ← tokens |>.clause
      tokens |>.clauses (found ++ [c])
  else return found
partial_fixpoint

def clause (tokens : TokenList) : Descent (Clause Expr) := do
  let _ ← tokens.expect .lparen .clauseOpening
  if ← tokens.sees Kind.startsExpression then
    let condition ← tokens |>.expression
    let content ← tokens |>.body []
    tokens.close ""
    return ⟨condition, content⟩
  else violation .condition (← tokens.current)
partial_fixpoint

def elseBody (tokens : TokenList) : Descent (Option (List Expr)) := do
  if ← tokens.seesOpening [.elseWord] then
    let _ ← tokens.next
    let _ ← tokens.next
    let content ← tokens |>.body []
    tokens.close "else"
    return some content
  else return none
partial_fixpoint

end

def program (tokens : TokenList) (found : List Expr) : Descent (List Expr) := do
  if ← tokens.atEnd then return found
  else
    let e ← tokens |>.expression
    tokens |>.program (found ++ [e])
partial_fixpoint

/-- The nonterminals that are called wherever an expression may stand. -/
def nonterminals (tokens : TokenList) : List (Descent Expr) :=
  [tokens.expression, tokens.equality, tokens.comparison, tokens.binary, tokens.unary,
    tokens.literal]

/-- The forms that are read only where they open. -/
def forms (tokens : TokenList) : List (Form × Descent Expr) :=
  [(.letIn, tokens.letIn), (.print, tokens.printed), (.ifThen, tokens.ifThen),
    (.cond, tokens.cond), (.logical, tokens.logical), (.equality, tokens.operation .equality),
    (.comparison, tokens.operation .comparison), (.arithmetic, tokens.operation .arithmetic)]

end TokenList

end Lisplet
