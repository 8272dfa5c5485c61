import Lisplet.Expr.Basic
import Lisplet.Parse.Form
import Lisplet.Parse.Monad

/-!
# Reading expressions

The grammar, as a recursive descent.  Beside the forms an expression is a literal, a name, or a sign
before another expression; a sign before another sign is none.  `Parser.expression` reads one
expression at a level, with `room` for that many nested expressions.

An operator form with more than two operands stands for nested ones: `(+ a b c)` is `(+ (+ a b) c)`.
-/

namespace Lisplet.Parser

/-! ### What comes next -/

/-- Whether an expression may begin here. -/
def startsExpression (ts : Tokens) : Bool := ts.current.kind.startsExpression

/-- Whether a parenthesis opens here before a token of the given kind. -/
def opens (kind : Kind) (ts : Tokens) : Bool :=
  ts.current.kind == .lparen && ts.following.kind == kind

/-- The form that opens here. -/
def form? (ts : Tokens) : Option Form :=
  if ts.current.kind = .lparen then Form.ofHead? ts.following.kind else none

/-- Whether the current token is the sign of an expression. -/
def signs (ts : Tokens) : Bool := ts.current.kind.isSign && !ts.following.kind.isSign

/-- Reads the parenthesis that closes a form. -/
def close (form : String) : Parser Unit := do
  let _ ← expect .rparen (.close form)

/-! ### Forms

The parsers of forms take a parser of the expressions inside. -/

/-- Expressions one after the other, as many as there are. -/
def body (expression : Parser Expr) : Parser (List Expr) := many startsExpression expression

/-- What is left of an operator form after its operator: operands, at least two, and the close. -/
def operands (node : Expr → Expr → Expr) (operand : Parser Expr) (operator : Token) :
    Parser Expr := do
  let first ← operand
  let second ← operand
  let others ← many startsExpression operand
  close operator.lexeme
  return others.foldl node (node first second)

/-- What is left of a `not` or `true?` form after its operator. -/
def predicate (expression : Parser Expr) (operator : Token) : Parser Expr := do
  let right ← expression
  close operator.lexeme
  return .unary operator right

/-- What is left of a printing form after its operator. -/
def printed (expression : Parser Expr) (operator : Token) : Parser Expr := do
  let content ← body expression
  close operator.lexeme
  return .print operator content

/-- A name and the expression for its value. -/
def binding (expression : Parser Expr) : Parser (Binding Expr) := do
  let t ← current
  if t.kind = .rparen then fail .bindingListEnd t
  let name ← expect .identifier .name
  let t ← current
  if t.kind.startsExpression then
    return ⟨name, ← expression⟩
  else fail (.boundValue name.lexeme) t

/-- The bindings up to the closing bracket, which is read too; the end of the text ends them as
well. -/
def bindings (expression : Parser Expr) : Parser (List (Binding Expr)) := do
  let found ← many (fun ts => ts.current.kind != .rbracket && !ts.atEnd) (binding expression)
  let t ← current
  if t.kind = .rbracket then
    let _ ← next
  return found

/-- What is left of a `let` form. -/
def letIn (expression : Parser Expr) : Parser Expr := do
  let _ ← expect .lbracket .bindingList
  let t ← current
  if t.kind = .identifier then
    let bound ← bindings expression
    let content ← body expression
    close "let"
    return .letIn bound content
  else fail .firstName t

/-- The body of an `else` form, if one opens here. -/
def elseBody (expression : Parser Expr) : Parser (Option (List Expr)) := fun ts =>
  if opens .elseWord ts then
    (do
      let _ ← next
      let _ ← next
      let content ← body expression
      close "else"
      return some content : Parser _) ts
  else .ok (none, ts)

/-- What is left of an `if` form. -/
def ifThen (expression : Parser Expr) : Parser Expr := do
  let condition ← expression
  let _ ← expect .lparen .thenOpening
  let _ ← expect .thenWord .thenWord
  let thenBody ← body expression
  close "then"
  let otherwise ← elseBody expression
  close "if"
  return .ifThen condition thenBody otherwise

/-- A condition and its body in parentheses. -/
def clause (expression : Parser Expr) : Parser (Clause Expr) := do
  let _ ← expect .lparen .clauseOpening
  let t ← current
  if t.kind.startsExpression then
    let condition ← expression
    let content ← body expression
    close ""
    return ⟨condition, content⟩
  else fail .condition t

/-- What is left of a `cond` form. -/
def cond (expression : Parser Expr) : Parser Expr := do
  let clauses ← many (fun ts => startsExpression ts && !opens .elseWord ts) (clause expression)
  if clauses.isEmpty then fail .clause (← current)
  let otherwise ← elseBody expression
  close "cond"
  return .cond clauses otherwise

/-- The tree of a token that is a literal or a name. -/
def single? (t : Token) : Option Expr :=
  match t.kind with
  | .string | .number => some (.literal t.literal)
  | .identifier => some (.identifier t)
  | .trueWord => some (.literal (.boolean true))
  | .falseWord => some (.literal (.boolean false))
  | .nullWord => some (.literal .null)
  | _ => none

/-- Where no expression stands, a name that follows is blamed first, then a character that belongs
to nothing, here or behind, and then whatever stands here. -/
def noExpression : Parser Expr := do
  let t ← current
  let behind ← following
  if behind.kind = .identifier then fail .undefinedIdentifier behind
  else if t.kind = .unidentified then fail .badToken t
  else if behind.kind = .unidentified then fail .badToken behind
  else fail .expression t

/-- A literal or a name. -/
def atom : Parser Expr := do
  match single? (← current) with
  | some e =>
    let _ ← next
    return e
  | none => noExpression

/-- What is left of a form after its head; `expression` reads what stands inside at a level. -/
def inside (expression : Level → Parser Expr) (form : Form) (head : Token) : Parser Expr :=
  match form with
  | .letIn => letIn (expression .any)
  | .print => printed (expression .any) head
  | .ifThen => ifThen (expression .any)
  | .cond => cond (expression .any)
  | .logical => operands (.logical head) (expression .any) head
  | .equality => operands (.binary head) (expression .comparison) head
  | .comparison => operands (.binary head) (expression .operand) head
  | .arithmetic => operands (.binary head) (expression .operand) head
  | .predicate => predicate (expression .any) head

/-- A form, from its opening parenthesis on. -/
def formOf (expression : Level → Parser Expr) (form : Form) : Parser Expr := do
  let _ ← next
  let head ← next
  inside expression form head

/-- A sign and the expression behind it. -/
def signed (expression : Parser Expr) : Parser Expr := do
  let operator ← next
  return .unary operator (← expression)

/-! ### Expressions and programs -/

/-- An expression at a level, with at most `room` expressions nested in each other. -/
def expression : Nat → Level → Parser Expr
  | 0, _ => tooDeep
  | room + 1, level => fun ts =>
    match form? ts with
    | some form =>
      if level.admits form then formOf (expression room) form ts else atom ts
    | none =>
      if signs ts then signed (expression room .any) ts else atom ts

/-- The expressions of a whole text. -/
def program (room : Nat) : Parser (List Expr) :=
  many (fun ts => !ts.atEnd) (expression room .any)

end Parser

/-- How many expressions may be nested in each other, in a text or in a tree. -/
def depthLimit : Nat := 1000

/-- The top-level expressions of a token stream, with room for that many nested ones. -/
def parseWithin (room : Nat) (ts : Tokens) : Except ParseStop (List Expr) :=
  (Parser.program room ts).map Prod.fst

/-- The top-level expressions of a token stream. -/
def parse (ts : Tokens) : Except ParseStop (List Expr) := parseWithin depthLimit ts

end Lisplet
