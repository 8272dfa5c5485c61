import Lisplet.Proofs.Grammar.Exactness
import Lisplet.Proofs.Places.Distinct
import Lisplet.Proofs.Segmentation.Spacing

/-!
# The tokens that trees keep

A tree keeps the tokens of its operators and names, and no string is among them
(`Grammar.Derives.allTokens`).  The lexeme of a token that was read from a text fixes its kind and
its literal, whatever the text is (`Token.IsLexeme.content_eq`), and unless it is a string it stays
on one line (`Token.IsLexeme.not_mem`).
-/

namespace Lisplet

/-! ### Tokens of trees -/

namespace Expr

variable {p : Token → Prop}

mutual

/-- All tokens in an expression have the property. -/
def AllTokens (p : Token → Prop) : Expr → Prop
  | literal _ => True
  | identifier name => p name
  | unary operator right => p operator ∧ right.AllTokens p
  | binary operator first second => p operator ∧ first.AllTokens p ∧ second.AllTokens p
  | logical operator first second => p operator ∧ first.AllTokens p ∧ second.AllTokens p
  | print operator body => p operator ∧ AllTokensOfAll p body
  | letIn bindings body => AllTokensOfBindings p bindings ∧ AllTokensOfAll p body
  | ifThen condition thenBody elseBody =>
    condition.AllTokens p ∧ AllTokensOfAll p thenBody ∧ AllTokensOfElse p elseBody
  | cond clauses elseBody => AllTokensOfClauses p clauses ∧ AllTokensOfElse p elseBody

/-- All tokens in some expressions have the property. -/
def AllTokensOfAll (p : Token → Prop) : List Expr → Prop
  | [] => True
  | e :: es => e.AllTokens p ∧ AllTokensOfAll p es

/-- All tokens in an else body, if there is one, have the property. -/
def AllTokensOfElse (p : Token → Prop) : Option (List Expr) → Prop
  | none => True
  | some body => AllTokensOfAll p body

/-- All tokens in bindings have the property. -/
def AllTokensOfBindings (p : Token → Prop) : List (Binding Expr) → Prop
  | [] => True
  | ⟨name, value⟩ :: bs => p name ∧ value.AllTokens p ∧ AllTokensOfBindings p bs

/-- All tokens in clauses have the property. -/
def AllTokensOfClauses (p : Token → Prop) : List (Clause Expr) → Prop
  | [] => True
  | ⟨condition, body⟩ :: cs =>
    condition.AllTokens p ∧ AllTokensOfAll p body ∧ AllTokensOfClauses p cs

end

theorem allTokensOfAll_iff {es : List Expr} :
    AllTokensOfAll p es ↔ ∀ e ∈ es, e.AllTokens p := by
  induction es with
  | nil => simp [AllTokensOfAll]
  | cons e es ih => simp [AllTokensOfAll, ih]

theorem allTokensOfBindings_iff {bs : List (Binding Expr)} :
    AllTokensOfBindings p bs ↔ ∀ b ∈ bs, p b.name ∧ b.value.AllTokens p := by
  induction bs with
  | nil => simp [AllTokensOfBindings]
  | cons b bs ih => simp [AllTokensOfBindings, ih, and_assoc]

theorem allTokensOfClauses_iff {cs : List (Clause Expr)} : AllTokensOfClauses p cs ↔
    ∀ c ∈ cs, c.condition.AllTokens p ∧ AllTokensOfAll p c.body := by
  induction cs with
  | nil => simp [AllTokensOfClauses]
  | cons c cs ih => simp [AllTokensOfClauses, ih, and_assoc]

end Expr

namespace Grammar

variable {p : Token → Prop}

/-- All tokens in what a phrase stands for have the property. -/
def Phrase.AllTokens (p : Token → Prop) : Phrase → Prop
  | .program es | .body es => Expr.AllTokensOfAll p es
  | .expression e | .equality e | .comparison e | .binary e | .unary e | .literal e
  | .operation _ e | .signed e | .predicate e | .letIn e | .print e | .ifThen e | .cond e =>
    e.AllTokens p
  | .binding b => p b.name ∧ b.value.AllTokens p
  | .clause c => c.condition.AllTokens p ∧ Expr.AllTokensOfAll p c.body
  | .otherwise elseBody => Expr.AllTokensOfElse p elseBody

theorem Phrase.allTokens_of_mem_alternatives {f g : Phrase} (h : g ∈ f.alternatives)
    (all : g.AllTokens p) : f.AllTokens p := by
  cases f <;> simp only [alternatives, List.mem_cons, List.not_mem_nil, or_false] at h <;>
    rcases h with rfl | rfl | rfl | rfl | rfl | rfl <;> exact all

theorem Operation.allTokens_operand {o : Operation} {e : Expr} :
    (o.operand e).AllTokens p ↔ e.AllTokens p := by
  cases o <;> rfl

theorem Operation.allTokens_node {o : Operation} {operator : Token} {first second : Expr} :
    (o.node operator first second).AllTokens p ↔
      p operator ∧ first.AllTokens p ∧ second.AllTokens p := by
  cases o <;> rfl

theorem Operation.allTokens_foldl {o : Operation} {operator : Token} {e : Expr}
    {es : List Expr} (keeps : p operator) (first : e.AllTokens p)
    (others : ∀ e ∈ es, e.AllTokens p) : (es.foldl (o.node operator) e).AllTokens p := by
  induction es generalizing e with
  | nil => exact first
  | cons e' es ih =>
    obtain ⟨next, others⟩ := List.forall_mem_cons.1 others
    exact ih (allTokens_node.2 ⟨keeps, first, next⟩) others

/-- What holds of the tokens inside parentheses and of others too holds of those inside. -/
theorem Parenthesized.forall_mem {v w : List Token} (h : Parenthesized v w)
    (all : ∀ t ∈ w, p t) : ∀ t ∈ v, p t := by
  obtain ⟨opening, closing, -, -, rfl⟩ := h
  exact fun t mem => all t (List.mem_cons_of_mem _ (List.mem_append_left _ mem))

theorem forall_mem_of_words {α : Type} {parts : List (List Token × α)} {x : List Token × α}
    (mem : x ∈ parts) (all : ∀ t ∈ words parts, p t) : ∀ t ∈ x.1, p t :=
  fun t ht => all t (mem_words.2 ⟨x, mem, ht⟩)

theorem forall_trees {α : Type} {parts : List (List Token × α)} {q : α → Prop} :
    (∀ a ∈ trees parts, q a) ↔ ∀ x ∈ parts, q x.2 := List.forall_mem_map

theorem Operation.ne_string_of_mem {o : Operation} {k : Kind} (h : k ∈ o.operators) :
    k ≠ .string := by
  rintro rfl
  cases o <;> exact absurd h (by decide)

/-- A tree keeps tokens that it was read from, but no strings. -/
theorem Derives.allTokens {f : Phrase} {w : List Token} (d : Derives f w)
    (all : ∀ t ∈ w, t.kind ≠ .string → p t) : f.AllTokens p := by
  induction d with
  | alternative h _ ih => exact Phrase.allTokens_of_mem_alternatives h (ih all)
  | program _ each | body _ each =>
    exact Expr.allTokensOfAll_iff.2
      (forall_trees.2 fun x mem => each x mem (forall_mem_of_words mem all))
  | operation operator _ _ _ form left right each =>
    simp only [Operation.allTokens_operand] at left right each
    obtain ⟨head, operands⟩ := List.forall_mem_cons.1 (form.forall_mem all)
    simp only [List.forall_mem_append] at operands
    have keeps := head (Operation.ne_string_of_mem operator)
    exact Operation.allTokens_foldl keeps
      (Operation.allTokens_node.2 ⟨keeps, left operands.1.1, right operands.1.2⟩)
      (forall_trees.2 fun x mem => each x mem (forall_mem_of_words mem operands.2))
  | signed kind _ _ ih =>
    obtain ⟨sign, behind⟩ := List.forall_mem_cons.1 all
    exact ⟨sign (by rcases kind with kind | kind <;> simp [kind]), ih behind⟩
  | predicate operator _ form ih =>
    obtain ⟨head, behind⟩ := List.forall_mem_cons.1 (form.forall_mem all)
    exact ⟨head (by rcases operator with kind | kind <;> simp [kind]), ih behind⟩
  | constant | trueWord | falseWord | nullWord | elseAbsent => trivial
  | identifier kind => exact all _ List.mem_cons_self (by simp [kind])
  | letIn _ _ _ _ _ _ form each body =>
    obtain ⟨-, -, bindings, -, inside⟩ : _ ∧ _ ∧ _ ∧ _ ∧ _ := by
      simpa only [List.forall_mem_cons, List.forall_mem_append] using form.forall_mem all
    exact ⟨Expr.allTokensOfBindings_iff.2 (forall_trees.2 fun x mem =>
      each x mem (forall_mem_of_words mem bindings)), body inside⟩
  | binding kind _ ih =>
    obtain ⟨name, behind⟩ := List.forall_mem_cons.1 all
    exact ⟨name (by simp [kind]), ih behind⟩
  | print operator _ form ih =>
    obtain ⟨head, behind⟩ := List.forall_mem_cons.1 (form.forall_mem all)
    exact ⟨head (by rcases operator with kind | kind <;> simp [kind]), ih behind⟩
  | ifThen _ _ _ _ thenParts _ form condition body otherwise =>
    have inside := (List.forall_mem_cons.1 (form.forall_mem all)).2
    simp only [List.forall_mem_append] at inside
    obtain ⟨⟨first, second⟩, third⟩ := inside
    have thenBody := (List.forall_mem_cons.1 (thenParts.forall_mem second)).2
    exact ⟨condition first, body thenBody, otherwise third⟩
  | elseBody _ _ form ih => exact ih (List.forall_mem_cons.1 (form.forall_mem all)).2
  | cond _ _ _ _ form each otherwise =>
    have inside := (List.forall_mem_cons.1 (form.forall_mem all)).2
    rw [List.forall_mem_append] at inside
    exact ⟨Expr.allTokensOfClauses_iff.2 (forall_trees.2 fun x mem =>
      each x mem (forall_mem_of_words mem inside.1)), otherwise inside.2⟩
  | clause _ _ form condition body =>
    have inside := form.forall_mem all
    rw [List.forall_mem_append] at inside
    exact ⟨condition inside.1, body inside.2⟩

end Grammar

/-! ### Lexemes -/

/-- Unless it is a string, a lexeme has no line feeds. -/
theorem Segment.Begins.not_mem_newline {cs text rest : List Char} {k : Kind}
    (h : Begins cs (lexeme k text) rest) (noString : k ≠ .string) : '\n' ∉ text := by
  have digits {ds : List Char} (each : ∀ c ∈ ds, c.isDigit = true) : '\n' ∉ ds := fun mem =>
    absurd (each _ mem) (by decide)
  have word {c : Char} {part rest : List Char} (start : isWordStart c = true)
      (run : LongestRun isWordPart part rest) : '\n' ∉ c :: part := by
    rintro (_ | ⟨_, mem⟩)
    · exact absurd start (by decide)
    · exact absurd (run.1 _ mem) (by decide)
  cases h with
  | string => exact absurd rfl noString
  | single mem =>
    have all : ∀ p ∈ singles, '\n' ∉ [p.1] := by decide
    exact all _ mem
  | pair mem =>
    have all : ∀ p ∈ pairs, '\n' ∉ [p.1, p.2.1] := by decide
    exact all _ mem
  | alone mem =>
    have all : ∀ p ∈ pairs, '\n' ∉ [p.1] := by decide
    exact all _ mem
  | integer _ run => exact digits run.1
  | decimal _ whole _ run =>
    rw [List.mem_append, List.mem_cons, not_or, not_or]
    exact ⟨digits whole, by decide, digits run.1⟩
  | keyword start run => exact word start run
  | identifier start run => exact word start run
  | other other =>
    rw [List.mem_singleton]
    rintro rfl
    exact absurd other.1 (by decide)

/-- The token is what some text begins with, but for its place. -/
def Token.IsLexeme (t : Token) : Prop :=
  ∃ cs text rest, Segment.Begins cs (.lexeme t.kind text) rest ∧
    t.lexeme = String.ofList text ∧ t.literal = Segment.literal t.kind text

namespace Token.IsLexeme

variable {t t' : Token}

/-- The lexeme fixes what the token is. -/
theorem content_eq (h : t.IsLexeme) (h' : t'.IsLexeme) (same : t.lexeme = t'.lexeme) :
    t.content = t'.content := by
  obtain ⟨cs, text, rest, begins, lexeme_eq, literal_eq⟩ := h
  obtain ⟨cs', text', rest', begins', lexeme_eq', literal_eq'⟩ := h'
  obtain rfl : text = text' := by
    rw [lexeme_eq, lexeme_eq'] at same
    exact String.ofList_inj.1 same
  -- By itself each lexeme is cut from its text as it was cut from the source.
  have ends : Segment.BeforeBlank [] := by simp [Segment.BeforeBlank]
  have alone := begins.before_blank ends
  have alone' := begins'.before_blank ends
  obtain ⟨segments, -⟩ := alone.unique alone'
  have kinds : t.kind = t'.kind := by injection segments
  rw [content, content, same, literal_eq, literal_eq', kinds]

theorem not_mem (h : t.IsLexeme) (noString : t.kind ≠ .string) : '\n' ∉ t.lexeme.toList := by
  obtain ⟨cs, text, rest, begins, lexeme_eq, -⟩ := h
  rw [lexeme_eq, String.toList_ofList]
  exact begins.not_mem_newline noString

end Token.IsLexeme

/-- The tokens that were read from a source are lexemes. -/
theorem isLexeme_of_tokenize {source : String} {ts : Tokens} (h : tokenize source = .ok ts) :
    ∀ t ∈ ts.ahead, t.IsLexeme := by
  intro t mem
  obtain ⟨ss, cuts, ahead, -⟩ := exists_cuts_of_tokenize h
  rw [ahead] at mem
  obtain ⟨before, k, text, after, segments, rfl⟩ := Segment.mem_tokens_iff.1 mem
  obtain ⟨cs, rest, begins⟩ := cuts.begins_of_mem
    (show Segment.lexeme k text ∈ ss by simp [segments])
  exact ⟨cs, text, rest, begins, rfl, rfl⟩

end Lisplet
