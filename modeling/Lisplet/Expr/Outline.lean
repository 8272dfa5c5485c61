import Lisplet.Expr.Basic

/-!
# Outlines of syntax trees

An `Outline` is a tree of labels.  It is written with one label on a line, the children of a node
indented below it between brackets and separated by commas.  `Expr.outline` labels each node of an
expression with its form and its operator, name or literal.
-/

namespace Lisplet

/-- A tree of labels. -/
inductive Outline where
  | node (label : String) (children : List Outline)

namespace Outline

/-- The spaces before a line. -/
def margin (indent : Nat) : String := String.ofList (List.replicate (4 * indent) ' ')

mutual

/-- The lines of an outline, the last one followed by a separator. -/
def lines (indent : Nat) (separator : String) : Outline → List String
  | node label children =>
    if children.isEmpty then [margin indent ++ label ++ separator]
    else
      (margin indent ++ label ++ "(nodes=[") ::
        (linesOfList (indent + 1) children ++ [margin indent ++ "])" ++ separator])

/-- The lines of the children of a node, with commas between them. -/
def linesOfList (indent : Nat) : List Outline → List String
  | [] => []
  | [o] => o.lines indent ""
  | o :: next :: os => o.lines indent "," ++ linesOfList indent (next :: os)

end

/-- The text of an outline. -/
def text (o : Outline) : String := "\n".intercalate (o.lines 0 "")

mutual

/-- How many levels an outline has. -/
def depth : Outline → Nat
  | node _ children => depthOfList children + 1

/-- How many levels the deepest of several outlines has. -/
def depthOfList : List Outline → Nat
  | [] => 0
  | o :: os => max o.depth (depthOfList os)

end

end Outline

namespace Expr

/-- A label with an argument in parentheses. -/
def label (form argument : String) : String := form ++ "(" ++ argument ++ ")"

/-- A label with the lexeme of a token. -/
def labelOf (form : String) (t : Token) : String := label form ("'" ++ t.lexeme ++ "'")

/-- The node of a body, given those of its expressions. -/
def bodyNode (children : List Outline) : Outline := .node "Body" children

mutual

/-- The outline of an expression; bodies, bindings and clauses are nodes of their own. -/
def outline : Expr → Outline
  | literal value => .node (label "Literal" value.text) []
  | identifier name => .node (labelOf "Variable" name) []
  | unary operator right => .node (labelOf "Unary" operator) [right.outline]
  | binary operator first second =>
    .node (labelOf "Binary" operator) [first.outline, second.outline]
  | logical operator first second =>
    .node (labelOf "Logical" operator) [first.outline, second.outline]
  | print operator body => .node (labelOf "Print" operator) [bodyNode (outlines body)]
  | letIn bindings body => .node "Let" (outlinesOfBindings bindings ++ [bodyNode (outlines body)])
  | ifThen condition thenBody elseBody =>
    .node "IfExpr" (condition.outline :: bodyNode (outlines thenBody) :: outlinesOfElse elseBody)
  | cond clauses elseBody => .node "Cond" (outlinesOfClauses clauses ++ outlinesOfElse elseBody)

/-- The outlines of expressions in order. -/
def outlines : List Expr → List Outline
  | [] => []
  | e :: es => e.outline :: outlines es

/-- No node stands for the body of an else that is not there. -/
def outlinesOfElse : Option (List Expr) → List Outline
  | none => []
  | some body => [bodyNode (outlines body)]

/-- A binding is a node named for what it binds. -/
def outlineOfBinding : Binding Expr → Outline
  | ⟨name, value⟩ => .node (labelOf "Binding" name) [value.outline]

/-- The nodes of bindings in order. -/
def outlinesOfBindings : List (Binding Expr) → List Outline
  | [] => []
  | b :: bs => outlineOfBinding b :: outlinesOfBindings bs

/-- A clause is a node with its condition and its body. -/
def outlineOfClause : Clause Expr → Outline
  | ⟨condition, body⟩ => .node "Clause" [condition.outline, bodyNode (outlines body)]

/-- The nodes of clauses in order. -/
def outlinesOfClauses : List (Clause Expr) → List Outline
  | [] => []
  | c :: cs => outlineOfClause c :: outlinesOfClauses cs

end

/-- The text of an expression's outline, unless that has more levels than `room`. -/
def display? (room : Nat) (e : Expr) : Option String :=
  if e.outline.depth ≤ room then some e.outline.text else none

end Expr

end Lisplet
