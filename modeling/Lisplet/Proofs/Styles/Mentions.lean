import Lisplet.Eval.Evaluate
import Lisplet.Parse.Expression

/-!
# What the reports of failures mention

Beside the token to blame, a violation of the grammar mentions a name: that of a form that is not
closed, or of a binding without a value.  Each such name is the lexeme of a token of the stream or
one of the words in `formWords` (`mentions_of_parseWithin_error`).  A fault mentions names of types
only, for it comes from an operator or from a name that is not bound (`faulting_interpret`).
-/

namespace Lisplet

/-! ### Violations of the grammar -/

/-- What a violation mentions by name, beside the token to blame. -/
def ParseProblem.names (problem : ParseProblem) : List String :=
  match problem with
  | .boundValue word | .close word => [word]
  | _ => []

/-- The words that forms are named for which are not named for their operators. -/
def formWords : List String := ["let", "then", "else", "if", "cond", ""]

/-- The lexemes of all tokens have a property. -/
def Tokens.Spell (Q : String → Prop) (ts : Tokens) : Prop := ∀ t ∈ ts.toList, Q t.lexeme

namespace Tokens

variable {Q : String → Prop} {ts : Tokens}

theorem Spell.current (h : ts.Spell Q) : Q ts.current.lexeme := by
  obtain ⟨ahead, last, _⟩ := ts
  cases ahead with
  | nil => exact h last List.mem_cons_self
  | cons t ahead => exact h t List.mem_cons_self

theorem Spell.tail (h : ts.Spell Q) : Spell Q { ts with ahead := ts.ahead.tail } := by
  intro t mem
  simp only [toList, List.mem_append] at mem
  exact h t (List.mem_append.2 (mem.imp_left List.mem_of_mem_tail))

theorem Spell.following (h : ts.Spell Q) : Q ts.following.lexeme := h.tail.current

theorem Spell.advance (h : ts.Spell Q) : ts.advance.Spell Q := by
  unfold Tokens.advance
  split
  · exact h
  · exact h.tail

end Tokens

namespace Parser

variable {α β : Type} {Q : String → Prop} {good : α → Prop} {good' : β → Prop} {p : Parser α}

/-- From tokens whose lexemes have the property `Q` the parser leaves such tokens behind a result
that is `good`, or it stops at a violation in which all names have the property. -/
structure Mentions (Q : String → Prop) (good : α → Prop) (p : Parser α) : Prop where
  ok : ∀ {ts rest a}, ts.Spell Q → p ts = .ok (a, rest) → rest.Spell Q ∧ good a
  error : ∀ {ts e}, ts.Spell Q → p ts = .error (.error e) →
    Q e.token.lexeme ∧ ∀ name ∈ e.problem.names, Q name

namespace Mentions

theorem pure {a : α} (h : good a) : Mentions Q good (Pure.pure a : Parser α) where
  ok spell eq := by cases eq; exact ⟨spell, h⟩
  error _ eq := by cases eq

theorem fail {problem : ParseProblem} {t : Token} (blamed : Q t.lexeme)
    (names : ∀ name ∈ problem.names, Q name) :
    Mentions Q good (Parser.fail problem t : Parser α) where
  ok _ eq := by cases eq
  error _ eq := by cases eq; exact ⟨blamed, names⟩

theorem tooDeep : Mentions Q good (Parser.tooDeep : Parser α) where
  ok _ eq := by cases eq
  error _ eq := by cases eq

theorem current : Mentions Q (fun t => Q t.lexeme) Parser.current where
  ok spell eq := by cases eq; exact ⟨spell, spell.current⟩
  error _ eq := by cases eq

theorem following : Mentions Q (fun t => Q t.lexeme) Parser.following where
  ok spell eq := by cases eq; exact ⟨spell, spell.following⟩
  error _ eq := by cases eq

theorem next : Mentions Q (fun t => Q t.lexeme) Parser.next where
  ok spell eq := by cases eq; exact ⟨spell.advance, spell.current⟩
  error _ eq := by cases eq

theorem bind {k : α → Parser β} (hp : Mentions Q good p)
    (hk : ∀ a, good a → Mentions Q good' (k a)) : Mentions Q good' (p >>= k) where
  ok spell eq := by
    obtain ⟨a, between, first, second⟩ := bind_eq_ok_iff.1 eq
    obtain ⟨spell', ha⟩ := hp.ok spell first
    exact (hk a ha).ok spell' second
  error spell eq := by
    rcases bind_eq_error_iff.1 eq with first | ⟨a, between, first, second⟩
    · exact hp.error spell first
    · obtain ⟨spell', ha⟩ := hp.ok spell first
      exact (hk a ha).error spell' second

theorem fail_bind {problem : ParseProblem} {t : Token} {k : α → Parser β} (blamed : Q t.lexeme)
    (names : ∀ name ∈ problem.names, Q name) :
    Mentions Q good' (Parser.fail problem t >>= k) :=
  bind (fail blamed names : Mentions Q (fun _ => False) _) fun _ never => never.elim

theorem ite {c : Prop} [Decidable c] {q : Parser α} (hp : Mentions Q good p)
    (hq : Mentions Q good q) : Mentions Q good (if c then p else q) := by
  split
  · exact hp
  · exact hq

/-- Which parser it is that reads may depend on the tokens. -/
theorem of_apply (h : ∀ ts, ∃ q, Mentions Q good q ∧ p ts = q ts) : Mentions Q good p where
  ok {ts _ _} spell eq := by
    obtain ⟨q, hq, same⟩ := h ts
    exact hq.ok spell (same.symm.trans eq)
  error {ts _} spell eq := by
    obtain ⟨q, hq, same⟩ := h ts
    exact hq.error spell (same.symm.trans eq)

theorem expect {kind : Kind} {problem : ParseProblem} (names : ∀ name ∈ problem.names, Q name) :
    Mentions Q (fun t => Q t.lexeme) (Parser.expect kind problem) :=
  bind current fun _ blamed => ite next (fail blamed names)

theorem close {form : String} (h : Q form) : Mentions Q (fun _ => True) (Parser.close form) :=
  bind (expect (by simpa [ParseProblem.names] using h)) fun _ _ => pure trivial

theorem manyUpTo (more : Tokens → Bool) (h : Mentions Q (fun _ => True) p) (fuel : Nat) :
    Mentions Q (fun _ => True) (Parser.manyUpTo more p fuel) := by
  induction fuel with
  | zero => exact pure trivial
  | succ fuel ih =>
    have another : Mentions Q (fun _ => True)
        (p >>= fun a => Parser.manyUpTo more p fuel >>= fun as => Pure.pure (a :: as)) :=
      bind h fun _ _ => bind ih fun _ _ => pure trivial
    refine of_apply fun ts => ?_
    rw [manyUpTo_succ]
    split
    · exact ⟨_, another, rfl⟩
    · exact ⟨Pure.pure [], pure trivial, rfl⟩

theorem many {more : Tokens → Bool} (h : Mentions Q (fun _ => True) p) :
    Mentions Q (fun _ => True) (Parser.many more p) :=
  of_apply fun ts => ⟨_, h.manyUpTo more ts.ahead.length, rfl⟩

/-! ### Forms -/

section Forms

variable {q : Parser Expr} {operator : Token} (words : ∀ word ∈ formWords, Q word)
  (h : Mentions Q (fun _ => True) q)
include h

theorem operands {node : Expr → Expr → Expr} (head : Q operator.lexeme) :
    Mentions Q (fun _ => True) (Parser.operands node q operator) :=
  bind h fun _ _ => bind h fun _ _ => bind h.many fun _ _ => bind (close head) fun _ _ =>
    pure trivial

theorem predicate (head : Q operator.lexeme) :
    Mentions Q (fun _ => True) (Parser.predicate q operator) :=
  bind h fun _ _ => bind (close head) fun _ _ => pure trivial

theorem printed (head : Q operator.lexeme) :
    Mentions Q (fun _ => True) (Parser.printed q operator) :=
  bind h.many fun _ _ => bind (close head) fun _ _ => pure trivial

theorem binding : Mentions Q (fun _ => True) (Parser.binding q) := by
  refine bind current fun t ht => ite (fail_bind ht (by simp [ParseProblem.names])) ?_
  refine bind (expect (by simp [ParseProblem.names])) fun name hname => bind current fun t ht => ?_
  refine ite (bind h fun _ _ => pure trivial) (fail ht ?_)
  simpa [ParseProblem.names] using hname

theorem bindings : Mentions Q (fun _ => True) (Parser.bindings q) :=
  bind h.binding.many fun _ _ => bind current fun _ _ =>
    ite (bind next fun _ _ => pure trivial) (pure trivial)

include words

theorem letIn : Mentions Q (fun _ => True) (Parser.letIn q) := by
  refine bind (expect (by simp [ParseProblem.names])) fun _ _ => bind current fun t ht => ?_
  refine ite ?_ (fail ht (by simp [ParseProblem.names]))
  exact bind h.bindings fun _ _ => bind h.many fun _ _ =>
    bind (close (words "let" (by decide))) fun _ _ => pure trivial

theorem elseBody : Mentions Q (fun _ => True) (Parser.elseBody q) := by
  have opened : Mentions Q (fun _ => True)
      (do
        let _ ← Parser.next
        let _ ← Parser.next
        let content ← Parser.body q
        Parser.close "else"
        return some content) :=
    bind next fun _ _ => bind next fun _ _ => bind h.many fun _ _ =>
      bind (close (words "else" (by decide))) fun _ _ => pure trivial
  refine of_apply fun ts => ?_
  unfold Parser.elseBody
  split
  · exact ⟨_, opened, rfl⟩
  · exact ⟨Pure.pure none, pure trivial, rfl⟩

theorem ifThen : Mentions Q (fun _ => True) (Parser.ifThen q) :=
  bind h fun _ _ => bind (expect (by simp [ParseProblem.names])) fun _ _ =>
    bind (expect (by simp [ParseProblem.names])) fun _ _ => bind h.many fun _ _ =>
    bind (close (words "then" (by decide))) fun _ _ => bind (elseBody words h) fun _ _ =>
    bind (close (words "if" (by decide))) fun _ _ => pure trivial

theorem clause : Mentions Q (fun _ => True) (Parser.clause q) := by
  refine bind (expect (by simp [ParseProblem.names])) fun _ _ => bind current fun t ht => ?_
  refine ite ?_ (fail ht (by simp [ParseProblem.names]))
  exact bind h fun _ _ => bind h.many fun _ _ =>
    bind (close (words "" (by decide))) fun _ _ => pure trivial

theorem cond : Mentions Q (fun _ => True) (Parser.cond q) := by
  refine bind (clause words h).many fun _ _ => ite ?_ ?_
  · exact bind current fun _ ht => fail_bind ht (by simp [ParseProblem.names])
  · exact bind (elseBody words h) fun _ _ => bind (close (words "cond" (by decide))) fun _ _ =>
      pure trivial

end Forms

/-! ### Expressions and programs -/

theorem noExpression : Mentions Q (fun _ => True) Parser.noExpression :=
  bind current fun _ ht => bind following fun _ hbehind =>
    ite (fail hbehind (by simp [ParseProblem.names]))
      (ite (fail ht (by simp [ParseProblem.names]))
        (ite (fail hbehind (by simp [ParseProblem.names]))
          (fail ht (by simp [ParseProblem.names]))))

theorem atom : Mentions Q (fun _ => True) Parser.atom := by
  refine bind current fun t _ => ?_
  split
  · exact bind next fun _ _ => pure trivial
  · exact noExpression

theorem signed {q : Parser Expr} (h : Mentions Q (fun _ => True) q) :
    Mentions Q (fun _ => True) (Parser.signed q) :=
  bind next fun _ _ => bind h fun _ _ => pure trivial

section Expressions

variable (words : ∀ word ∈ formWords, Q word)
include words

theorem inside {q : Level → Parser Expr} {head : Token} (form : Form) (hhead : Q head.lexeme)
    (h : ∀ level, Mentions Q (fun _ => True) (q level)) :
    Mentions Q (fun _ => True) (Parser.inside q form head) := by
  cases form with
  | letIn => exact letIn words (h .any)
  | print => exact printed (h .any) hhead
  | ifThen => exact ifThen words (h .any)
  | cond => exact cond words (h .any)
  | logical => exact operands (h .any) hhead
  | equality => exact operands (h .comparison) hhead
  | comparison | arithmetic => exact operands (h .operand) hhead
  | predicate => exact predicate (h .any) hhead

theorem formOf {q : Level → Parser Expr} (form : Form)
    (h : ∀ level, Mentions Q (fun _ => True) (q level)) :
    Mentions Q (fun _ => True) (Parser.formOf q form) :=
  bind next fun _ _ => bind next fun _ hhead => inside words form hhead h

theorem expression (room : Nat) (level : Level) :
    Mentions Q (fun _ => True) (Parser.expression room level) := by
  induction room generalizing level with
  | zero => exact tooDeep
  | succ room ih =>
    refine of_apply fun ts => ?_
    unfold Parser.expression
    split
    · split
      · exact ⟨_, formOf words _ ih, rfl⟩
      · exact ⟨_, atom, rfl⟩
    · split
      · exact ⟨_, signed (ih .any), rfl⟩
      · exact ⟨_, atom, rfl⟩

theorem program (room : Nat) : Mentions Q (fun _ => True) (Parser.program room) :=
  (expression words room .any).many

end Expressions

end Mentions

end Parser

/-- Where the lexemes of all tokens have a property, and so do the words for forms, whatever a
violation mentions has it. -/
theorem mentions_of_parseWithin_error {Q : String → Prop} {ts : Tokens} {room : Nat}
    {e : ParseError} (words : ∀ word ∈ formWords, Q word) (spell : ts.Spell Q)
    (refused : parseWithin room ts = .error (.error e)) :
    Q e.token.lexeme ∧ ∀ name ∈ e.problem.names, Q name := by
  refine (Parser.Mentions.program words room).error spell ?_
  rw [parseWithin] at refused
  cases h : Parser.program room ts with
  | ok r => rw [h] at refused; cases refused
  | error stop => rw [h] at refused; cases refused; rfl

/-! ### Faults -/

/-- Where faults come from. -/
inductive Fault.Arises : Fault → Prop where
  | name (t : Token) : Arises ⟨t, .undefinedIdentifier⟩
  | unary {operator : Token} {right : Value} {f : Fault}
      (refused : applyUnary operator right = .error f) : Arises f
  | binary {operator : Token} {first second : Value} {f : Fault}
      (refused : applyBinary operator first second = .error f) : Arises f

/-- The types that a fault mentions are those of two values. -/
theorem Fault.Arises.exists_types {f : Fault} (h : f.Arises) {first second : String}
    (cause : f.cause = .incomparable first second) :
    ∃ v w : Value, first = v.typeName ∧ second = w.typeName := by
  cases h with
  | name t => cases cause
  | @unary operator right _ refused =>
    unfold applyUnary at refused
    split at refused
    · cases refused
    · cases refused
    · split at refused <;> cases refused
      cases cause
  | @binary operator v w _ refused =>
    unfold applyBinary at refused
    split at refused
    · cases refused
    · cases refused
    any_goals
      unfold applyComparison at refused
      split at refused <;> cases refused
      cases cause
      exact ⟨v, w, rfl, rfl⟩
    split at refused
    · rename_i x y
      unfold applyArithmetic at refused
      split at refused
      any_goals cases refused
      split at refused <;> cases refused
      cases cause
    · cases refused
      cases cause

namespace Run

variable {α β : Type}

/-- The faults of the evaluation come from operators and names. -/
def Faulting (x : Run α) : Prop := ∀ s f, (x s).result = .error (.fault f) → f.Arises

theorem faulting_pure (a : α) : (pure a : Run α).Faulting := fun _ _ h => by cases h

theorem faulting_tooDeep : (halt .tooDeep : Run α).Faulting := fun _ _ h => by cases h

theorem faulting_write (text : String) : (write text).Faulting := fun _ _ h => by cases h

theorem faulting_define (name : String) (value : Value) : (define name value).Faulting :=
  fun _ _ h => by cases h

theorem faulting_lookup (name : Token) : (lookup name).Faulting := by
  intro s f h
  unfold lookup at h
  split at h
  · cases h
  · cases h
    exact .name name

theorem faulting_lift {r : Except Fault α} (arises : ∀ f, r = .error f → f.Arises) :
    (lift r).Faulting := by
  intro s f h
  cases r with
  | ok a => cases h
  | error fault =>
    cases h
    exact arises _ rfl

theorem Faulting.bind {x : Run α} {k : α → Run β} (hx : x.Faulting) (hk : ∀ a, (k a).Faulting) :
    (x >>= k).Faulting := by
  intro s f h
  simp only [Bind.bind] at h
  cases hr : (x s).result with
  | error halt =>
    simp only [hr] at h
    exact hx s f (by rw [hr, Except.error.inj h])
  | ok a =>
    simp only [hr] at h
    exact hk a _ f h

theorem Faulting.ite {c : Prop} [Decidable c] {x y : Run α} (hx : x.Faulting) (hy : y.Faulting) :
    (if c then x else y).Faulting := by
  split
  · exact hx
  · exact hy

theorem Faulting.inChild {x : Run α} (h : x.Faulting) : (inChild x).Faulting :=
  fun s f halted => h s.child f halted

section Parts

variable {eval : Expr → Run Value} (h : ∀ e, (eval e).Faulting)
include h

theorem faulting_body (before : Value) (es : List Expr) : (body eval before es).Faulting := by
  induction es generalizing before with
  | nil => exact faulting_pure before
  | cons e es ih => exact (h e).bind ih

theorem faulting_printEach (ending : String) (es : List Expr) :
    (printEach eval ending es).Faulting := by
  induction es with
  | nil => exact faulting_pure ()
  | cons e es ih => exact (h e).bind fun _ => (faulting_write _).bind fun _ => ih

theorem faulting_bindEach (bs : List (Binding Expr)) : (bindEach eval bs).Faulting := by
  induction bs with
  | nil => exact faulting_pure ()
  | cons b bs ih => exact (h b.value).bind fun _ => (faulting_define _ _).bind fun _ => ih

theorem faulting_otherwise (elseBody : Option (List Expr)) :
    (otherwise eval elseBody).Faulting := by
  cases elseBody with
  | none => exact faulting_pure Value.null
  | some es => exact faulting_body h .null es

theorem faulting_firstClause (elseBody : Option (List Expr)) (cs : List (Clause Expr)) :
    (firstClause eval elseBody cs).Faulting := by
  induction cs with
  | nil => exact faulting_otherwise h elseBody
  | cons c cs ih => exact (h c.condition).bind fun _ => (faulting_body h .null c.body).ite ih

end Parts

end Run

open Run in
theorem faulting_evaluate (room : Nat) (e : Expr) : (evaluate room e).Faulting := by
  induction room generalizing e with
  | zero => exact faulting_tooDeep
  | succ room ih =>
    cases e with
    | literal value => exact faulting_pure value
    | identifier name => exact faulting_lookup name
    | unary operator right => exact (ih right).bind fun _ => faulting_lift fun _ => .unary
    | binary operator first second =>
      exact (ih first).bind fun _ => (ih second).bind fun _ => faulting_lift fun _ => .binary
    | logical operator first second =>
      exact (ih first).bind fun _ => (faulting_pure _).ite (ih second)
    | print operator body =>
      exact (faulting_printEach ih _ body).bind fun _ => faulting_pure Value.null
    | letIn bindings body =>
      exact ((faulting_bindEach ih bindings).bind fun _ => faulting_body ih .null body).inChild
    | ifThen condition thenBody elseBody =>
      exact (ih condition).bind fun _ => (faulting_body ih .null thenBody).ite
        (faulting_otherwise ih elseBody)
    | cond clauses elseBody => exact faulting_firstClause ih elseBody clauses

/-- Every fault of a program comes from an operator or from a name that is not bound. -/
theorem faulting_interpret (room : Nat) (es : List Expr) : (interpret room es).Faulting := by
  induction es with
  | nil => exact Run.faulting_pure ()
  | cons e es ih => exact (faulting_evaluate room e).bind fun _ => ih

end Lisplet
