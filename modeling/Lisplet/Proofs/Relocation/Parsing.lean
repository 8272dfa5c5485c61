import Lisplet.Parse.Expression
import Lisplet.Proofs.Relocation.Basic

/-!
# Reading relocated tokens

A parser decides by the kinds of tokens and keeps the tokens themselves.  So from a relocated stream
it reads the relocated trees, and where it stops, it stops for the same reason at the relocated
token (`parseWithin_relocate`).  `Parser.Relocates f g p q` says this of single parsers: `q` does
with relocated tokens what `p` does with the tokens, and its result is the one of `p` changed by
`g`.
-/

namespace Lisplet

/-- The violation with its token relocated. -/
def ParseError.relocate (f : Relocation) (e : ParseError) : ParseError :=
  { e with token := f e.token }

/-- What is told of a violation does not depend on the place of its token. -/
@[simp] theorem ParseError.message_relocate (f : Relocation) (e : ParseError) :
    (e.relocate f).message = e.message := by
  simp [message, relocate]

/-- The reason to stop, with its token, if it has one, relocated. -/
def ParseStop.relocate (f : Relocation) : ParseStop → ParseStop
  | .error e => .error (e.relocate f)
  | .tooDeep => .tooDeep

namespace Parser

variable {α α' β β' : Type} {f : Relocation}

/-- How reading ends, with the result changed and the tokens relocated. -/
def relocated (f : Relocation) (g : α → β) :
    Except ParseStop (α × Tokens) → Except ParseStop (β × Tokens)
  | .ok (a, rest) => .ok (g a, rest.relocate f)
  | .error stop => .error (stop.relocate f)

/-- On relocated tokens `q` ends as `p` does on the tokens, the result changed by `g`. -/
def Relocates (f : Relocation) (g : α → β) (p : Parser α) (q : Parser β) : Prop :=
  ∀ ts, q (ts.relocate f) = relocated f g (p ts)

namespace Relocates

/-! ### Steps and choices -/

theorem pure {g : α → β} (a : α) : Relocates f g (Pure.pure a) (Pure.pure (g a)) := fun _ => rfl

theorem fail {g : α → β} (problem : ParseProblem) (t : Token) :
    Relocates f g (Parser.fail problem t) (Parser.fail problem (f t)) := fun _ => rfl

theorem tooDeep {g : α → β} : Relocates f g Parser.tooDeep Parser.tooDeep := fun _ => rfl

theorem current : Relocates f f Parser.current Parser.current := fun ts => by
  rw [Parser.current, Tokens.current_relocate]
  rfl

theorem following : Relocates f f Parser.following Parser.following := fun ts => by
  rw [Parser.following, Tokens.following_relocate]
  rfl

theorem next : Relocates f f Parser.next Parser.next := fun ts => by
  rw [Parser.next, Tokens.current_relocate, Tokens.advance_relocate]
  rfl

theorem bind {g : α → α'} {h : β → β'} {p : Parser α} {p' : Parser α'} {k : α → Parser β}
    {k' : α' → Parser β'} (hp : Relocates f g p p') (hk : ∀ a, Relocates f h (k a) (k' (g a))) :
    Relocates f h (p >>= k) (p' >>= k') := by
  intro ts
  have hts := hp ts
  cases hr : p ts with
  | error stop =>
    rw [hr] at hts
    rw [bind_error hr, bind_error hts]
    rfl
  | ok r =>
    obtain ⟨a, rest⟩ := r
    rw [hr] at hts
    rw [bind_ok hr, bind_ok hts, hk]

theorem ite {g : α → β} {c c' : Prop} [Decidable c] [Decidable c'] {p₁ p₂ : Parser α}
    {q₁ q₂ : Parser β} (iff : c' ↔ c) (h₁ : Relocates f g p₁ q₁) (h₂ : Relocates f g p₂ q₂) :
    Relocates f g (if c then p₁ else p₂) (if c' then q₁ else q₂) := by
  by_cases hc : c
  · rwa [if_pos hc, if_pos (iff.2 hc)]
  · rwa [if_neg hc, if_neg (fun h => hc (iff.1 h))]

theorem expect (kind : Kind) (problem : ParseProblem) :
    Relocates f f (Parser.expect kind problem) (Parser.expect kind problem) :=
  bind current fun t => ite (by rw [f.kind_move]) next (fail problem t)

theorem close (form : String) : Relocates f id (Parser.close form) (Parser.close form) :=
  bind (expect .rparen (.close form)) fun _ => pure ()

/-! ### Repetitions -/

theorem manyUpTo {g : α → β} {more : Tokens → Bool} {item : Parser α} {item' : Parser β}
    (hmore : ∀ ts, more (ts.relocate f) = more ts) (hitem : Relocates f g item item') (fuel : Nat) :
    Relocates f (List.map g) (Parser.manyUpTo more item fuel)
      (Parser.manyUpTo more item' fuel) := by
  induction fuel with
  | zero => exact pure []
  | succ fuel ih =>
    intro ts
    rw [manyUpTo_succ, manyUpTo_succ, hmore]
    split
    · exact (hitem.bind fun a => ih.bind fun as => pure (a :: as)) ts
    · rfl

theorem many {g : α → β} {more : Tokens → Bool} {item : Parser α} {item' : Parser β}
    (hmore : ∀ ts, more (ts.relocate f) = more ts) (hitem : Relocates f g item item') :
    Relocates f (List.map g) (Parser.many more item) (Parser.many more item') := by
  intro ts
  have := manyUpTo hmore hitem ts.ahead.length ts
  simpa only [Parser.many, Tokens.ahead_relocate, List.length_map] using this

end Relocates

/-! ### What comes next -/

theorem startsExpression_relocate (ts : Tokens) :
    startsExpression (ts.relocate f) = startsExpression ts := by simp [startsExpression]

theorem opens_relocate (kind : Kind) (ts : Tokens) :
    opens kind (ts.relocate f) = opens kind ts := by simp [opens]

theorem form?_relocate (ts : Tokens) : form? (ts.relocate f) = form? ts := by simp [form?]

theorem signs_relocate (ts : Tokens) : signs (ts.relocate f) = signs ts := by simp [signs]

theorem single?_move (t : Token) : single? (f t) = (single? t).map (Expr.relocate f) := by
  simp only [single?, f.kind_move, f.literal_move]
  split <;> rfl

/-! ### Forms -/

namespace Relocates

variable {p q : Parser Expr}

theorem body (h : Relocates f (Expr.relocate f) p q) :
    Relocates f (List.map (Expr.relocate f)) (Parser.body p) (Parser.body q) :=
  many startsExpression_relocate h

theorem operands {node node' : Expr → Expr → Expr} (operator : Token)
    (hnode : ∀ a b, node' (a.relocate f) (b.relocate f) = (node a b).relocate f)
    (h : Relocates f (Expr.relocate f) p q) :
    Relocates f (Expr.relocate f) (Parser.operands node p operator)
      (Parser.operands node' q (f operator)) := by
  -- The operands are folded from the left, so what is carried along is any tree.
  have fold : ∀ (others : List Expr) (e : Expr),
      (others.map (Expr.relocate f)).foldl node' (e.relocate f) =
        (others.foldl node e).relocate f := by
    intro others
    induction others with
    | nil => exact fun _ => rfl
    | cons other others ih =>
      intro e
      rw [List.map_cons, List.foldl_cons, List.foldl_cons, hnode, ih]
  refine bind h fun first => bind h fun second => bind (many startsExpression_relocate h) ?_
  intro others
  rw [f.lexeme_move]
  refine bind (close operator.lexeme) fun _ => ?_
  rw [hnode, fold]
  exact pure _

theorem predicate (operator : Token) (h : Relocates f (Expr.relocate f) p q) :
    Relocates f (Expr.relocate f) (Parser.predicate p operator)
      (Parser.predicate q (f operator)) := by
  refine bind h fun right => ?_
  rw [f.lexeme_move]
  exact bind (close operator.lexeme) fun _ => pure (Expr.unary operator right)

theorem printed (operator : Token) (h : Relocates f (Expr.relocate f) p q) :
    Relocates f (Expr.relocate f) (Parser.printed p operator) (Parser.printed q (f operator)) := by
  refine bind h.body fun content => ?_
  rw [f.lexeme_move, ← Expr.relocateAll_eq_map]
  exact bind (close operator.lexeme) fun _ => pure (Expr.print operator content)

theorem binding (h : Relocates f (Expr.relocate f) p q) :
    Relocates f (Binding.relocate f (Expr.relocate f)) (Parser.binding p) (Parser.binding q) := by
  refine bind current fun t => ?_
  -- What is read behind the test for the end of the list.
  have named : Relocates f (Binding.relocate f (Expr.relocate f))
      (do
        let name ← Parser.expect .identifier .name
        let t ← Parser.current
        if t.kind.startsExpression then
          return ⟨name, ← p⟩
        else Parser.fail (.boundValue name.lexeme) t)
      (do
        let name ← Parser.expect .identifier .name
        let t ← Parser.current
        if t.kind.startsExpression then
          return ⟨name, ← q⟩
        else Parser.fail (.boundValue name.lexeme) t) := by
    refine bind (expect .identifier .name) fun name => bind current fun t => ?_
    refine ite (by rw [f.kind_move]) (bind h fun value => pure (⟨name, value⟩ : Binding Expr)) ?_
    rw [f.lexeme_move]
    exact fail _ t
  refine ite (by rw [f.kind_move]) ?_ ?_
  · exact bind (fail (g := id) .bindingListEnd t) fun _ => named
  · exact named

theorem bindings (h : Relocates f (Expr.relocate f) p q) :
    Relocates f (List.map (Binding.relocate f (Expr.relocate f))) (Parser.bindings p)
      (Parser.bindings q) := by
  refine bind (many (by simp) h.binding) fun found => bind current fun t => ?_
  refine ite (by rw [f.kind_move]) (bind next fun _ => pure found) (pure found)

theorem letIn (h : Relocates f (Expr.relocate f) p q) :
    Relocates f (Expr.relocate f) (Parser.letIn p) (Parser.letIn q) := by
  refine bind (expect .lbracket .bindingList) fun _ => bind current fun t => ?_
  refine ite (by rw [f.kind_move]) ?_ (fail .firstName t)
  refine bind h.bindings fun bound => bind h.body fun content => bind (close "let") fun _ => ?_
  rw [← Expr.relocateAll_eq_map, ← Expr.relocateBindings_eq_map]
  exact pure (Expr.letIn bound content)

theorem elseBody (h : Relocates f (Expr.relocate f) p q) :
    Relocates f (Option.map (List.map (Expr.relocate f))) (Parser.elseBody p)
      (Parser.elseBody q) := by
  intro ts
  simp only [Parser.elseBody, opens_relocate]
  split
  · exact (bind next fun _ => bind next fun _ => bind h.body fun content =>
      bind (close "else") fun _ => pure (some content)) ts
  · rfl

theorem ifThen (h : Relocates f (Expr.relocate f) p q) :
    Relocates f (Expr.relocate f) (Parser.ifThen p) (Parser.ifThen q) := by
  refine bind h fun condition => bind (expect .lparen .thenOpening) fun _ =>
    bind (expect .thenWord .thenWord) fun _ => bind h.body fun thenBody =>
    bind (close "then") fun _ => bind h.elseBody fun otherwise => bind (close "if") fun _ => ?_
  rw [← Expr.relocateAll_eq_map, ← Expr.relocateElse_eq_map]
  exact pure (Expr.ifThen condition thenBody otherwise)

theorem clause (h : Relocates f (Expr.relocate f) p q) :
    Relocates f (Clause.map (Expr.relocate f)) (Parser.clause p) (Parser.clause q) := by
  refine bind (expect .lparen .clauseOpening) fun _ => bind current fun t => ?_
  refine ite (by rw [f.kind_move]) ?_ (fail .condition t)
  exact bind h fun condition => bind h.body fun content => bind (close "") fun _ =>
    pure (⟨condition, content⟩ : Clause Expr)

theorem cond (h : Relocates f (Expr.relocate f) p q) :
    Relocates f (Expr.relocate f) (Parser.cond p) (Parser.cond q) := by
  refine bind (many (by simp [startsExpression_relocate, opens_relocate]) h.clause)
    fun clauses => ?_
  have rest : Relocates f (Expr.relocate f)
      (do
        let otherwise ← Parser.elseBody p
        Parser.close "cond"
        return .cond clauses otherwise)
      (do
        let otherwise ← Parser.elseBody q
        Parser.close "cond"
        return .cond (clauses.map (Clause.map (Expr.relocate f))) otherwise) := by
    refine bind h.elseBody fun otherwise => bind (close "cond") fun _ => ?_
    rw [← Expr.relocateClauses_eq_map, ← Expr.relocateElse_eq_map]
    exact pure (Expr.cond clauses otherwise)
  refine ite (by simp) ?_ rest
  exact bind current fun t => bind (fail (g := id) .clause t) fun _ => rest

/-! ### Expressions and programs -/

theorem noExpression : Relocates f (Expr.relocate f) Parser.noExpression Parser.noExpression := by
  refine bind current fun t => bind following fun behind => ?_
  refine ite (by rw [f.kind_move]) (fail _ behind) ?_
  refine ite (by rw [f.kind_move]) (fail _ t) ?_
  exact ite (by rw [f.kind_move]) (fail _ behind) (fail _ t)

theorem atom : Relocates f (Expr.relocate f) Parser.atom Parser.atom := by
  refine bind current fun t => ?_
  rw [single?_move]
  cases single? t with
  | none => exact noExpression
  | some e => exact bind next fun _ => pure e

theorem inside {p q : Level → Parser Expr} (form : Form) (head : Token)
    (h : ∀ level, Relocates f (Expr.relocate f) (p level) (q level)) :
    Relocates f (Expr.relocate f) (Parser.inside p form head)
      (Parser.inside q form (f head)) := by
  cases form with
  | letIn => exact letIn (h .any)
  | print => exact printed head (h .any)
  | ifThen => exact ifThen (h .any)
  | cond => exact cond (h .any)
  | logical => exact operands head (fun _ _ => rfl) (h .any)
  | equality => exact operands head (fun _ _ => rfl) (h .comparison)
  | comparison => exact operands head (fun _ _ => rfl) (h .operand)
  | arithmetic => exact operands head (fun _ _ => rfl) (h .operand)
  | predicate => exact predicate head (h .any)

theorem formOf {p q : Level → Parser Expr} (form : Form)
    (h : ∀ level, Relocates f (Expr.relocate f) (p level) (q level)) :
    Relocates f (Expr.relocate f) (Parser.formOf p form) (Parser.formOf q form) :=
  bind next fun _ => bind next fun head => inside form head h

theorem signed (h : Relocates f (Expr.relocate f) p q) :
    Relocates f (Expr.relocate f) (Parser.signed p) (Parser.signed q) :=
  bind next fun operator => bind h fun right => pure (Expr.unary operator right)

theorem expression (room : Nat) (level : Level) :
    Relocates f (Expr.relocate f) (Parser.expression room level)
      (Parser.expression room level) := by
  induction room generalizing level with
  | zero => exact tooDeep
  | succ room ih =>
    intro ts
    simp only [Parser.expression, form?_relocate, signs_relocate]
    split
    · split
      · exact formOf _ ih ts
      · exact atom ts
    · split
      · exact signed (ih .any) ts
      · exact atom ts

theorem program (room : Nat) :
    Relocates f (List.map (Expr.relocate f)) (Parser.program room) (Parser.program room) :=
  many (by simp) (expression room .any)

end Relocates

end Parser

/-- From a relocated stream the relocated trees are read, and a violation is one of the relocated
token. -/
theorem parseWithin_relocate (f : Relocation) (room : Nat) (ts : Tokens) :
    parseWithin room (ts.relocate f) =
      match parseWithin room ts with
      | .ok es => .ok (es.map (Expr.relocate f))
      | .error stop => .error (stop.relocate f) := by
  rw [parseWithin, parseWithin, Parser.Relocates.program room ts]
  cases Parser.program room ts <;> rfl

end Lisplet
