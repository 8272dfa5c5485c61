import Lisplet.Expr.Basic

/-!
# Free names

The names that an expression takes from the scope it is evaluated in.  A `let` is sequential: what a
name is bound to sees the names before it, but not the name itself, and the body sees all of them.
The free identifiers are the tokens at which it takes them.
-/

namespace Lisplet.Expr

mutual

/-- The names that occur free in an expression, in the order of their tokens. -/
def freeNames : Expr → List String
  | literal _ => []
  | identifier name => [name.lexeme]
  | unary _ right => right.freeNames
  | binary _ first second => first.freeNames ++ second.freeNames
  | logical _ first second => first.freeNames ++ second.freeNames
  | print _ body => freeNamesOfAll body
  | letIn bindings body => freeNamesOfBindings (freeNamesOfAll body) bindings
  | ifThen condition thenBody elseBody =>
    condition.freeNames ++ (freeNamesOfAll thenBody ++ freeNamesOfElse elseBody)
  | cond clauses elseBody => freeNamesOfClauses (freeNamesOfElse elseBody) clauses

/-- The names that occur free in some of the expressions. -/
def freeNamesOfAll : List Expr → List String
  | [] => []
  | e :: es => e.freeNames ++ freeNamesOfAll es

/-- The names that occur free in the else body, if there is one. -/
def freeNamesOfElse : Option (List Expr) → List String
  | none => []
  | some body => freeNamesOfAll body

/-- The names that occur free in bindings and in what is inside them, where the given names occur
free: each binding takes its name out of those behind it. -/
def freeNamesOfBindings (inside : List String) : List (Binding Expr) → List String
  | [] => inside
  | ⟨name, value⟩ :: bs =>
    value.freeNames ++ (freeNamesOfBindings inside bs).filter (· ≠ name.lexeme)

/-- The names that occur free in clauses and in what comes behind them, where the given names occur
free. -/
def freeNamesOfClauses (behind : List String) : List (Clause Expr) → List String
  | [] => behind
  | ⟨condition, body⟩ :: cs =>
    condition.freeNames ++ (freeNamesOfAll body ++ freeNamesOfClauses behind cs)

end

/-- In `(let [x x y (- x z)] x y w)` the first `x` is that of the scope outside, and so are `z` and
`w`. -/
example :
    let token (k : Kind) (lexeme : String) : Token := ⟨k, lexeme, .null, 1, 1⟩
    let name (lexeme : String) := identifier (token .identifier lexeme)
    freeNames (letIn
      [⟨token .identifier "x", name "x"⟩,
        ⟨token .identifier "y", binary (token .minus "-") (name "x") (name "z")⟩]
      [name "x", name "y", name "w"]) = ["x", "z", "w"] := by
  decide

/-! ### Free identifiers -/

mutual

/-- The tokens of the free occurrences of names in an expression, in order. -/
def freeIdentifiers : Expr → List Token
  | literal _ => []
  | identifier name => [name]
  | unary _ right => right.freeIdentifiers
  | binary _ first second => first.freeIdentifiers ++ second.freeIdentifiers
  | logical _ first second => first.freeIdentifiers ++ second.freeIdentifiers
  | print _ body => freeIdentifiersOfAll body
  | letIn bindings body => freeIdentifiersOfBindings (freeIdentifiersOfAll body) bindings
  | ifThen condition thenBody elseBody =>
    condition.freeIdentifiers ++
      (freeIdentifiersOfAll thenBody ++ freeIdentifiersOfElse elseBody)
  | cond clauses elseBody => freeIdentifiersOfClauses (freeIdentifiersOfElse elseBody) clauses

/-- The free identifiers of some expressions. -/
def freeIdentifiersOfAll : List Expr → List Token
  | [] => []
  | e :: es => e.freeIdentifiers ++ freeIdentifiersOfAll es

/-- The free identifiers of the else body, if there is one. -/
def freeIdentifiersOfElse : Option (List Expr) → List Token
  | none => []
  | some body => freeIdentifiersOfAll body

/-- The free identifiers of bindings and of what is inside them, where the given ones occur. -/
def freeIdentifiersOfBindings (inside : List Token) : List (Binding Expr) → List Token
  | [] => inside
  | ⟨name, value⟩ :: bs => value.freeIdentifiers ++
      (freeIdentifiersOfBindings inside bs).filter (·.lexeme ≠ name.lexeme)

/-- The free identifiers of clauses and of what comes behind them, where the given ones occur. -/
def freeIdentifiersOfClauses (behind : List Token) : List (Clause Expr) → List Token
  | [] => behind
  | ⟨condition, body⟩ :: cs => condition.freeIdentifiers ++
      (freeIdentifiersOfAll body ++ freeIdentifiersOfClauses behind cs)

end

mutual

/-- The names that occur free are those of the free identifiers. -/
theorem freeNames_eq : ∀ e : Expr, e.freeNames = e.freeIdentifiers.map Token.lexeme
  | literal _ => rfl
  | identifier _ => rfl
  | unary _ right => freeNames_eq right
  | binary _ first second | logical _ first second => by
    simp only [freeNames, freeIdentifiers, List.map_append, freeNames_eq first,
      freeNames_eq second]
  | print _ body => freeNamesOfAll_eq body
  | letIn bindings body => by
    simp only [freeNames, freeIdentifiers, freeNamesOfAll_eq body,
      freeNamesOfBindings_eq _ bindings]
  | ifThen condition thenBody elseBody => by
    simp only [freeNames, freeIdentifiers, List.map_append, freeNames_eq condition,
      freeNamesOfAll_eq thenBody, freeNamesOfElse_eq elseBody]
  | cond clauses elseBody => by
    simp only [freeNames, freeIdentifiers, freeNamesOfElse_eq elseBody,
      freeNamesOfClauses_eq _ clauses]

theorem freeNamesOfAll_eq :
    ∀ es : List Expr, freeNamesOfAll es = (freeIdentifiersOfAll es).map Token.lexeme
  | [] => rfl
  | e :: es => by
    simp only [freeNamesOfAll, freeIdentifiersOfAll, List.map_append, freeNames_eq e,
      freeNamesOfAll_eq es]

theorem freeNamesOfElse_eq : ∀ elseBody : Option (List Expr),
    freeNamesOfElse elseBody = (freeIdentifiersOfElse elseBody).map Token.lexeme
  | none => rfl
  | some body => freeNamesOfAll_eq body

theorem freeNamesOfBindings_eq (inside : List Token) : ∀ bs : List (Binding Expr),
    freeNamesOfBindings (inside.map Token.lexeme) bs =
      (freeIdentifiersOfBindings inside bs).map Token.lexeme
  | [] => rfl
  | ⟨name, value⟩ :: bs => by
    simp only [freeNamesOfBindings, freeIdentifiersOfBindings, List.map_append,
      freeNames_eq value, freeNamesOfBindings_eq inside bs, List.filter_map]
    rfl

theorem freeNamesOfClauses_eq (behind : List Token) : ∀ cs : List (Clause Expr),
    freeNamesOfClauses (behind.map Token.lexeme) cs =
      (freeIdentifiersOfClauses behind cs).map Token.lexeme
  | [] => rfl
  | ⟨condition, body⟩ :: cs => by
    simp only [freeNamesOfClauses, freeIdentifiersOfClauses, List.map_append,
      freeNames_eq condition, freeNamesOfAll_eq body, freeNamesOfClauses_eq behind cs]

end

section Members

variable {t : Token}

theorem mem_of_freeIdentifiersOfBindings {inside : List Token} {bs : List (Binding Expr)}
    (h : t ∈ freeIdentifiersOfBindings inside bs) :
    t ∈ inside ∨ ∃ b ∈ bs, t ∈ b.value.freeIdentifiers := by
  induction bs with
  | nil => exact .inl h
  | cons b bs ih =>
    rcases List.mem_append.1 h with h | h
    · exact .inr ⟨b, List.mem_cons_self, h⟩
    · obtain h | ⟨b', mem, h⟩ := ih (List.mem_filter.1 h).1
      · exact .inl h
      · exact .inr ⟨b', List.mem_cons_of_mem b mem, h⟩

theorem mem_freeIdentifiersOfClauses {behind : List Token} {cs : List (Clause Expr)} :
    t ∈ freeIdentifiersOfClauses behind cs ↔
      (∃ c ∈ cs, t ∈ c.condition.freeIdentifiers ∨ t ∈ freeIdentifiersOfAll c.body) ∨
        t ∈ behind := by
  induction cs with
  | nil => simp [freeIdentifiersOfClauses]
  | cons c cs ih => simp [freeIdentifiersOfClauses, ih, or_assoc]

end Members

end Lisplet.Expr
