import Lisplet.Expr.Basic
import Lisplet.Parse.Form
import Mathlib.Tactic.Tauto

/-!
# The grammar of programs

A `Phrase` is a nonterminal of the grammar together with the tree of what it stands for, and
`Derives p w` says that the tokens `w` are a phrase `p`.  The tree is part of the phrase, so a
derivation fixes what is read as well as that it can be read:

* an operator form with more than two operands has the tree of the forms nested to the left, all of
  them with the one operator token (`Derives.operation`);
* an else body that is absent is told apart from one that is empty (`Derives.elseAbsent`,
  `Derives.elseBody`).

Only programs, bodies and the else bodies that are absent may be empty; any other phrase begins with
a token that an expression may begin with (`Derives.starts`).  What may stand at a `Level` is a form
that the level admits, a signed expression or a literal (`derives_level_iff`).
-/

namespace Lisplet.Grammar

/-! ### Phrases -/

/-- The operators with two operands or more; those that take the same operands go together. -/
inductive Operation where
  | logical
  | equality
  | comparison
  | arithmetic

/-- A nonterminal and the tree of what it stands for. -/
inductive Phrase where
  | program (es : List Expr)
  | expression (e : Expr)
  | equality (e : Expr)
  | comparison (e : Expr)
  | binary (e : Expr)
  | unary (e : Expr)
  | literal (e : Expr)
  /-- The form of an operator of the given sort. -/
  | operation (o : Operation) (e : Expr)
  /-- A sign before an expression. -/
  | signed (e : Expr)
  | predicate (e : Expr)
  | letIn (e : Expr)
  | binding (b : Binding Expr)
  | body (es : List Expr)
  | print (e : Expr)
  | ifThen (e : Expr)
  | cond (e : Expr)
  | clause (c : Clause Expr)
  | otherwise (body : Option (List Expr))

/-- The phrases that a phrase may be as they stand. -/
def Phrase.alternatives : Phrase → List Phrase
  | expression e => [letIn e, print e, ifThen e, cond e, operation .logical e, equality e]
  | equality e => [operation .equality e, comparison e]
  | comparison e => [operation .comparison e, binary e]
  | binary e => [operation .arithmetic e, unary e]
  | unary e => [signed e, predicate e, operation .arithmetic e, literal e]
  | _ => []

namespace Operation

/-- The kinds of the operators of a sort. -/
def operators : Operation → List Kind
  | logical => [.andWord, .orWord]
  | equality => [.equal, .notEqual]
  | comparison => [.greater, .greaterEqual, .less, .lessEqual]
  | arithmetic => [.plus, .minus, .star, .slash, .doubleSlash, .percent]

/-- What the operands are. -/
def operand : Operation → Expr → Phrase
  | logical => .expression
  | equality => .comparison
  | comparison => .binary
  | arithmetic => .unary

/-- The tree of an operator and two operands. -/
def node : Operation → Token → Expr → Expr → Expr
  | logical => .logical
  | equality => .binary
  | comparison => .binary
  | arithmetic => .binary

end Operation

/-! ### Derivations -/

section Parts

variable {α : Type}

/-- The tokens of consecutive parts. -/
def words (parts : List (List Token × α)) : List Token := parts.flatMap Prod.fst

/-- The trees of consecutive parts. -/
def trees (parts : List (List Token × α)) : List α := parts.map Prod.snd

@[simp] theorem words_nil : words ([] : List (List Token × α)) = [] := rfl

@[simp] theorem words_cons (x : List Token × α) (parts : List (List Token × α)) :
    words (x :: parts) = x.1 ++ words parts := rfl

@[simp] theorem words_append (parts others : List (List Token × α)) :
    words (parts ++ others) = words parts ++ words others := List.flatMap_append

theorem mem_words {parts : List (List Token × α)} {t : Token} :
    t ∈ words parts ↔ ∃ x ∈ parts, t ∈ x.1 := List.mem_flatMap

@[simp] theorem trees_nil : trees ([] : List (List Token × α)) = [] := rfl

@[simp] theorem trees_cons (x : List Token × α) (parts : List (List Token × α)) :
    trees (x :: parts) = x.2 :: trees parts := rfl

@[simp] theorem trees_append (parts others : List (List Token × α)) :
    trees (parts ++ others) = trees parts ++ trees others := List.map_append

end Parts

/-- The tokens `w` are those of `v` between parentheses. -/
def Parenthesized (v w : List Token) : Prop :=
  ∃ opening closing : Token,
    opening.kind = .lparen ∧ closing.kind = .rparen ∧ w = opening :: (v ++ [closing])

/-- The tokens `w` are a phrase `p`.  Repetitions are lists of parts, each with its own tokens. -/
inductive Derives : Phrase → List Token → Prop where
  | alternative {p q : Phrase} {w : List Token} (alternative : q ∈ p.alternatives)
      (derived : Derives q w) : Derives p w
  | program {parts : List (List Token × Expr)}
      (each : ∀ x ∈ parts, Derives (.expression x.2) x.1) :
      Derives (.program (trees parts)) (words parts)
  | operation {o : Operation} {head : Token} {first second : Expr} {u v w : List Token}
      {others : List (List Token × Expr)} (operator : head.kind ∈ o.operators)
      (left : Derives (o.operand first) u) (right : Derives (o.operand second) v)
      (each : ∀ x ∈ others, Derives (o.operand x.2) x.1)
      (form : Parenthesized (head :: (u ++ v ++ words others)) w) :
      Derives (.operation o ((trees others).foldl (o.node head) (o.node head first second))) w
  /-- A sign is one only where no other sign follows it. -/
  | signed {sign : Token} {e : Expr} {v : List Token}
      (kind : sign.kind = .plus ∨ sign.kind = .minus)
      (single : ∀ t ∈ v.head?, t.kind ≠ .plus ∧ t.kind ≠ .minus)
      (right : Derives (.expression e) v) : Derives (.signed (.unary sign e)) (sign :: v)
  | predicate {head : Token} {e : Expr} {v w : List Token}
      (operator : head.kind = .notWord ∨ head.kind = .isTrue)
      (right : Derives (.expression e) v) (form : Parenthesized (head :: v) w) :
      Derives (.predicate (.unary head e)) w
  | constant {t : Token} (kind : t.kind = .string ∨ t.kind = .number) :
      Derives (.literal (.literal t.literal)) [t]
  | identifier {t : Token} (kind : t.kind = .identifier) : Derives (.literal (.identifier t)) [t]
  | trueWord {t : Token} (kind : t.kind = .trueWord) :
      Derives (.literal (.literal (.boolean true))) [t]
  | falseWord {t : Token} (kind : t.kind = .falseWord) :
      Derives (.literal (.literal (.boolean false))) [t]
  | nullWord {t : Token} (kind : t.kind = .nullWord) : Derives (.literal (.literal .null)) [t]
  | letIn {head opening closing : Token} {bindings : List (List Token × Binding Expr)}
      {es : List Expr} {v w : List Token} (operator : head.kind = .letWord)
      (opens : opening.kind = .lbracket) (some : bindings ≠ [])
      (each : ∀ x ∈ bindings, Derives (.binding x.2) x.1) (closes : closing.kind = .rbracket)
      (body : Derives (.body es) v)
      (form : Parenthesized (head :: opening :: (words bindings ++ closing :: v)) w) :
      Derives (.letIn (.letIn (trees bindings) es)) w
  | binding {name : Token} {e : Expr} {v : List Token} (kind : name.kind = .identifier)
      (value : Derives (.expression e) v) : Derives (.binding ⟨name, e⟩) (name :: v)
  | body {parts : List (List Token × Expr)}
      (each : ∀ x ∈ parts, Derives (.expression x.2) x.1) :
      Derives (.body (trees parts)) (words parts)
  | print {head : Token} {es : List Expr} {v w : List Token}
      (operator : head.kind = .print ∨ head.kind = .println) (body : Derives (.body es) v)
      (form : Parenthesized (head :: v) w) : Derives (.print (.print head es)) w
  | ifThen {head thenHead : Token} {e : Expr} {thenBody : List Expr}
      {elseBody : Option (List Expr)} {u v thenForm elseForm w : List Token}
      (operator : head.kind = .ifWord) (condition : Derives (.expression e) u)
      (thenOperator : thenHead.kind = .thenWord) (body : Derives (.body thenBody) v)
      (thenParts : Parenthesized (thenHead :: v) thenForm)
      (otherwise : Derives (.otherwise elseBody) elseForm)
      (form : Parenthesized (head :: (u ++ thenForm ++ elseForm)) w) :
      Derives (.ifThen (.ifThen e thenBody elseBody)) w
  | elseAbsent : Derives (.otherwise none) []
  | elseBody {head : Token} {es : List Expr} {v w : List Token}
      (operator : head.kind = .elseWord) (body : Derives (.body es) v)
      (form : Parenthesized (head :: v) w) : Derives (.otherwise (some es)) w
  | cond {head : Token} {clauses : List (List Token × Clause Expr)}
      {elseBody : Option (List Expr)} {elseForm w : List Token} (operator : head.kind = .condWord)
      (some : clauses ≠ []) (each : ∀ x ∈ clauses, Derives (.clause x.2) x.1)
      (otherwise : Derives (.otherwise elseBody) elseForm)
      (form : Parenthesized (head :: (words clauses ++ elseForm)) w) :
      Derives (.cond (.cond (trees clauses) elseBody)) w
  | clause {e : Expr} {es : List Expr} {u v w : List Token}
      (condition : Derives (.expression e) u) (body : Derives (.body es) v)
      (form : Parenthesized (u ++ v) w) : Derives (.clause ⟨e, es⟩) w

/-! ### First tokens -/

/-- Phrases that are never empty and do not begin with a token of their own. -/
def Phrase.IsSolid : Phrase → Prop
  | program _ | body _ | otherwise _ => False
  | _ => True

theorem Phrase.isSolid_of_mem_alternatives {p : Phrase} : ∀ q ∈ p.alternatives, q.IsSolid := by
  cases p <;> simp [alternatives, IsSolid]

theorem Parenthesized.starts {v w : List Token} (h : Parenthesized v w) :
    ∃ t rest, w = t :: rest ∧ t.kind.startsExpression = true := by
  obtain ⟨opening, closing, ho, -, rfl⟩ := h
  exact ⟨opening, v ++ [closing], rfl, by rw [ho]; rfl⟩

/-- A phrase that is not a sequence begins with a token that an expression may begin with. -/
theorem Derives.starts {p : Phrase} {w : List Token} (d : Derives p w) (solid : p.IsSolid) :
    ∃ t v, w = t :: v ∧ t.kind.startsExpression = true := by
  induction d with
  | alternative h _ ih => exact ih (Phrase.isSolid_of_mem_alternatives _ h)
  | program | body | elseAbsent | elseBody => exact solid.elim
  | operation _ _ _ _ form | predicate _ _ form | letIn _ _ _ _ _ _ form | print _ _ form
  | ifThen _ _ _ _ _ _ form | cond _ _ _ _ form | clause _ _ form => exact form.starts
  | @signed sign _ v kind =>
    exact ⟨sign, v, rfl, by rcases kind with h | h <;> rw [h] <;> rfl⟩
  | @constant t kind => exact ⟨t, [], rfl, by rcases kind with h | h <;> rw [h] <;> rfl⟩
  | @identifier t kind | @trueWord t kind | @falseWord t kind | @nullWord t kind =>
    exact ⟨t, [], rfl, by rw [kind]; rfl⟩
  | @binding name _ v kind => exact ⟨name, v, rfl, by rw [kind]; rfl⟩

/-! ### Levels -/

/-- A phrase that is not a sequence has a token at least. -/
theorem Derives.ne_nil {p : Phrase} {w : List Token} (d : Derives p w)
    (solid : p.IsSolid) : w ≠ [] := by
  obtain ⟨t, v, rfl, -⟩ := d.starts solid
  exact List.cons_ne_nil t v

/-- What stands at a level, as a phrase. -/
def phraseAt : Level → Expr → Phrase
  | .any => .expression
  | .comparison => .comparison
  | .operand => .unary

/-- A form as a phrase. -/
def phraseOf : Form → Expr → Phrase
  | .letIn => .letIn
  | .print => .print
  | .ifThen => .ifThen
  | .cond => .cond
  | .logical => .operation .logical
  | .equality => .operation .equality
  | .comparison => .operation .comparison
  | .arithmetic => .operation .arithmetic
  | .predicate => .predicate

/-- The kinds of tokens that stand at the head of a form. -/
def headsOf : Form → List Kind
  | .letIn => [.letWord]
  | .print => [.print, .println]
  | .ifThen => [.ifWord]
  | .cond => [.condWord]
  | .logical => Operation.logical.operators
  | .equality => Operation.equality.operators
  | .comparison => Operation.comparison.operators
  | .arithmetic => Operation.arithmetic.operators
  | .predicate => [.notWord, .isTrue]

namespace Operation

/-- An operator form as a form. -/
def form : Operation → Form
  | logical => .logical
  | equality => .equality
  | comparison => .comparison
  | arithmetic => .arithmetic

theorem phraseOf_form (o : Operation) : phraseOf o.form = .operation o := by cases o <;> rfl

theorem headsOf_form (o : Operation) : headsOf o.form = o.operators := by cases o <;> rfl

/-- Where the operands of an operator stand. -/
def level : Operation → Level
  | logical => .any
  | equality => .comparison
  | comparison => .operand
  | arithmetic => .operand

end Operation

theorem ofHead?_eq_some_iff {k : Kind} {form : Form} :
    Form.ofHead? k = some form ↔ k ∈ headsOf form := by
  cases form <;> cases k <;> decide

/-- A form begins with an opening parenthesis and a head of its own. -/
theorem Derives.exists_head {form : Form} {e : Expr} {w : List Token}
    (d : Derives (phraseOf form e) w) : ∃ (opening head : Token) (v : List Token),
      w = opening :: head :: v ∧ opening.kind = .lparen ∧ head.kind ∈ headsOf form := by
  have head {head : Token} {v w : List Token} (h : Parenthesized (head :: v) w)
      (hh : head.kind ∈ headsOf form) : ∃ (opening head : Token) (v : List Token),
        w = opening :: head :: v ∧ opening.kind = .lparen ∧ head.kind ∈ headsOf form := by
    obtain ⟨opening, closing, ho, -, rfl⟩ := h
    exact ⟨opening, head, v ++ [closing], rfl, ho, hh⟩
  cases form with
  | letIn =>
    cases d with
    | alternative h => cases h
    | letIn operator _ _ _ _ _ form => exact head form (by simpa [headsOf] using operator)
  | print =>
    cases d with
    | alternative h => cases h
    | print operator _ form => exact head form (by simpa [headsOf] using operator)
  | ifThen =>
    cases d with
    | alternative h => cases h
    | ifThen operator _ _ _ _ _ form => exact head form (by simpa [headsOf] using operator)
  | cond =>
    cases d with
    | alternative h => cases h
    | cond operator _ _ _ form => exact head form (by simpa [headsOf] using operator)
  | logical | equality | comparison | arithmetic =>
    cases d with
    | alternative h => cases h
    | operation operator _ _ _ form => exact head form operator
  | predicate =>
    cases d with
    | alternative h => cases h
    | predicate operator _ form => exact head form (by simpa [headsOf] using operator)

theorem derives_iff_alternative {p : Phrase} {w : List Token} (h : p.alternatives ≠ []) :
    Derives p w ↔ ∃ q ∈ p.alternatives, Derives q w := by
  constructor
  · intro d
    cases d with
    | alternative hq d => exact ⟨_, hq, d⟩
    | _ => exact absurd rfl h
  · rintro ⟨q, hq, d⟩
    exact .alternative hq d

theorem derives_unary_iff {e : Expr} {w : List Token} :
    Derives (.unary e) w ↔ Derives (.operation .arithmetic e) w ∨ Derives (.predicate e) w ∨
      Derives (.signed e) w ∨ Derives (.literal e) w := by
  rw [derives_iff_alternative (by simp [Phrase.alternatives])]
  simp only [Phrase.alternatives, List.mem_cons, List.not_mem_nil, or_false, exists_eq_or_imp,
    exists_eq_left]
  tauto

/-- Arithmetic may stand wherever an operand of arithmetic may. -/
theorem derives_binary_iff {e : Expr} {w : List Token} :
    Derives (.binary e) w ↔ Derives (.unary e) w := by
  rw [derives_iff_alternative (by simp [Phrase.alternatives])]
  simp only [Phrase.alternatives, List.mem_cons, List.not_mem_nil, or_false, exists_eq_or_imp,
    exists_eq_left, derives_unary_iff]
  tauto

theorem derives_comparison_iff {e : Expr} {w : List Token} :
    Derives (.comparison e) w ↔
      Derives (.operation .comparison e) w ∨ Derives (.unary e) w := by
  rw [derives_iff_alternative (by simp [Phrase.alternatives])]
  simp only [Phrase.alternatives, List.mem_cons, List.not_mem_nil, or_false, exists_eq_or_imp,
    exists_eq_left, derives_binary_iff]

theorem derives_expression_iff {e : Expr} {w : List Token} :
    Derives (.expression e) w ↔ Derives (.letIn e) w ∨ Derives (.print e) w ∨
      Derives (.ifThen e) w ∨ Derives (.cond e) w ∨ Derives (.operation .logical e) w ∨
      Derives (.operation .equality e) w ∨ Derives (.comparison e) w := by
  have equality : Derives (.equality e) w ↔
      Derives (.operation .equality e) w ∨ Derives (.comparison e) w := by
    rw [derives_iff_alternative (by simp [Phrase.alternatives])]
    simp only [Phrase.alternatives, List.mem_cons, List.not_mem_nil, or_false, exists_eq_or_imp,
      exists_eq_left]
  rw [derives_iff_alternative (by simp [Phrase.alternatives])]
  simp only [Phrase.alternatives, List.mem_cons, List.not_mem_nil, or_false, exists_eq_or_imp,
    exists_eq_left, equality]

/-- What stands at a level is a form that the level admits, a signed expression or a literal. -/
theorem derives_level_iff {level : Level} {e : Expr} {w : List Token} :
    Derives (phraseAt level e) w ↔
      (∃ form, level.admits form = true ∧ Derives (phraseOf form e) w) ∨
        Derives (.signed e) w ∨ Derives (.literal e) w := by
  -- With one disjunct for each form, a level is compared with the alternatives of its phrase.
  have forms : (∃ form, level.admits form = true ∧ Derives (phraseOf form e) w) ↔
      level.admits .letIn ∧ Derives (.letIn e) w ∨ level.admits .print ∧ Derives (.print e) w ∨
      level.admits .ifThen ∧ Derives (.ifThen e) w ∨ level.admits .cond ∧ Derives (.cond e) w ∨
      level.admits .logical ∧ Derives (.operation .logical e) w ∨
      level.admits .equality ∧ Derives (.operation .equality e) w ∨
      level.admits .comparison ∧ Derives (.operation .comparison e) w ∨
      level.admits .arithmetic ∧ Derives (.operation .arithmetic e) w ∨
      level.admits .predicate ∧ Derives (.predicate e) w := by
    constructor
    · rintro ⟨form, h, d⟩
      cases form <;> simp only [phraseOf] at d <;> simp only [h, d, true_and, true_or, or_true]
    · rintro (⟨h, d⟩ | ⟨h, d⟩ | ⟨h, d⟩ | ⟨h, d⟩ | ⟨h, d⟩ | ⟨h, d⟩ | ⟨h, d⟩ | ⟨h, d⟩ | ⟨h, d⟩) <;>
        exact ⟨_, h, d⟩
  rw [forms]
  cases level <;>
    simp [phraseAt, derives_expression_iff, derives_comparison_iff, derives_unary_iff,
      Level.admits, or_assoc]

theorem derives_program_singleton_iff {e : Expr} {w : List Token} :
    Derives (.program [e]) w ↔ Derives (.expression e) w := by
  constructor
  · intro d
    generalize hes : [e] = es at d
    cases d with
    | alternative h => cases h
    | @program parts each =>
      match parts with
      | [] => cases hes
      | [x] =>
        obtain rfl : e = x.2 := by simpa using hes
        simpa using each x List.mem_cons_self
      | _ :: _ :: _ => simp at hes
  · intro d
    have : ∀ x ∈ [(w, e)], Derives (.expression x.2) x.1 := by simpa using d
    simpa using Derives.program this

end Lisplet.Grammar
