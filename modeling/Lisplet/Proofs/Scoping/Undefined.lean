import Lisplet.Proofs.Grammar.Exactness
import Lisplet.Proofs.Scoping.Dependence
import Lisplet.Proofs.Scoping.Occurrences

/-!
# Undefined identifiers

An evaluation can only miss a name at a free identifier of its expression, and only one that no
frame of the scope binds (`misses_evaluate`).  What a `let` has bound is no longer missed, whichever
of its bindings the evaluation has come to.  The free identifiers of a tree that was read are
identifiers of the text it was read from.
-/

namespace Lisplet

open Grammar

/-- Some frame of the scope binds the name. -/
def Scope.Binds (s : Scope) (name : String) : Prop :=
  ∃ f ∈ s.frames, ∃ value, (name, value) ∈ f

theorem Scope.get?_eq_none_iff {s : Scope} {name : String} :
    s.get? name = none ↔ ¬ s.Binds name := by
  simp only [get?, Binds, List.findSome?_eq_none_iff, List.lookup_eq_none_iff, not_exists, not_and,
    Prod.forall, bne_iff_ne]
  constructor
  · exact fun h f hf value mem => h f hf name value mem rfl
  · rintro h f hf other value mem rfl
    exact h f hf value mem

/-- What is told of the fault is that an identifier is undefined. -/
def Fault.IsUndefined (f : Fault) : Prop :=
  ∃ name, f.message = "Undefined identifier '" ++ name ++ "'"

theorem Fault.isUndefined_iff {f : Fault} : f.IsUndefined ↔ f.cause = .undefinedIdentifier := by
  constructor
  · rintro ⟨name, message⟩
    obtain ⟨t, cause⟩ := f
    have first := congrArg (fun text => text.toList.head?) message
    cases cause <;> simp [Fault.message] at first
    rfl
  · intro cause
    exact ⟨f.token.lexeme, by simp only [Fault.message, cause]⟩

/-! ### Names that evaluations miss -/

namespace Run

variable {α β : Type} {tokens more : List Token}

/-- The evaluation calls an identifier undefined only at one of the tokens, and only where the scope
gives its name no value. -/
def Misses (tokens : List Token) (x : Run α) : Prop :=
  ∀ s t, (x s).result = .error (.fault ⟨t, .undefinedIdentifier⟩) →
    t ∈ tokens ∧ s.get? t.lexeme = none

theorem Misses.mono {x : Run α} (h : x.Misses tokens) (sub : tokens ⊆ more) : x.Misses more :=
  fun s t missed => ⟨sub (h s t missed).1, (h s t missed).2⟩

theorem misses_pure (a : α) : (pure a : Run α).Misses [] := fun _ _ missed => by cases missed

theorem misses_tooDeep : (halt .tooDeep : Run α).Misses tokens := fun _ _ missed => by cases missed

theorem misses_write (text : String) : (write text).Misses [] := fun _ _ missed => by cases missed

theorem misses_lift {r : Except Fault α}
    (h : ∀ f, r = .error f → f.cause ≠ .undefinedIdentifier) : (lift r).Misses [] := by
  cases r with
  | ok a => exact misses_pure a
  | error f =>
    intro s t missed
    cases missed
    exact absurd rfl (h _ rfl)

theorem misses_applyUnary (operator : Token) (right : Value) :
    (lift (applyUnary operator right)).Misses [] :=
  misses_lift fun _ refused => (fault_of_applyUnary refused).2

theorem misses_applyBinary (operator : Token) (first second : Value) :
    (lift (applyBinary operator first second)).Misses [] :=
  misses_lift fun _ refused => (fault_of_applyBinary refused).2

theorem misses_lookup (name : Token) : (lookup name).Misses [name] := by
  intro s t missed
  unfold lookup at missed
  split at missed
  · cases missed
  · cases missed
    exact ⟨List.mem_singleton_self name, ‹_›⟩

/-- What gives the scope back as it was leaves what follows to miss the same names. -/
theorem Misses.bind {x : Run α} {k : α → Run β} (hx : x.Misses tokens) (keeps : x.Keeps)
    (hk : ∀ a, (k a).Misses more) : (x >>= k).Misses (tokens ++ more) := by
  intro s t missed
  simp only [Bind.bind, keeps s] at missed
  cases hr : (x s).result with
  | error halt =>
    simp only [hr] at missed
    cases missed
    exact hx.mono (List.subset_append_left tokens more) s t hr
  | ok a =>
    simp only [hr] at missed
    exact (hk a).mono (List.subset_append_right tokens more) s t missed

theorem Misses.ite {c : Prop} [Decidable c] {x y : Run α} (hx : x.Misses tokens)
    (hy : y.Misses more) : (if c then x else y).Misses (tokens ++ more) := by
  split
  · exact hx.mono (List.subset_append_left tokens more)
  · exact hy.mono (List.subset_append_right tokens more)

/-- A defined name is not missed from then on. -/
theorem Misses.define_bind {k : Run α} (hk : k.Misses tokens) (name : String) (value : Value) :
    (define name value >>= fun _ => k).Misses (tokens.filter (·.lexeme ≠ name)) := by
  intro s t missed
  obtain ⟨mem, none⟩ := hk (s.define name value) t missed
  have other : t.lexeme ≠ name := by
    rintro rfl
    rw [Scope.get?_define_self] at none
    cases none
  rw [Scope.get?_define_of_ne s value other] at none
  exact ⟨List.mem_filter.2 ⟨mem, by simpa using other⟩, none⟩

theorem Misses.inChild {x : Run α} (h : x.Misses tokens) : (inChild x).Misses tokens := by
  intro s t missed
  obtain ⟨mem, none⟩ := h s.child t missed
  exact ⟨mem, by rwa [Scope.get?_child] at none⟩

section Parts

variable {eval : Expr → Run Value} (keeps : ∀ e, (eval e).Keeps)
  (misses : ∀ e, (eval e).Misses e.freeIdentifiers)
include keeps misses

theorem misses_body (before : Value) (es : List Expr) :
    (body eval before es).Misses (Expr.freeIdentifiersOfAll es) := by
  induction es generalizing before with
  | nil => exact misses_pure before
  | cons e es ih => exact (misses e).bind (keeps e) ih

theorem misses_printEach (ending : String) (es : List Expr) :
    (printEach eval ending es).Misses (Expr.freeIdentifiersOfAll es) := by
  induction es with
  | nil => exact misses_pure ()
  | cons e es ih =>
    exact (misses e).bind (keeps e) fun _ => (misses_write _).bind (keeps_write _) fun _ => ih

/-- Behind a binding its name is not missed, in the values of other bindings or in the body. -/
theorem misses_bindEach_bind {k : Run α} (hk : k.Misses tokens) (bs : List (Binding Expr)) :
    (bindEach eval bs >>= fun _ => k).Misses (Expr.freeIdentifiersOfBindings tokens bs) := by
  induction bs with
  | nil => exact hk
  | cons b bs ih =>
    rw [bindEach_cons_bind]
    exact (misses b.value).bind (keeps b.value) fun value => ih.define_bind b.name.lexeme value

theorem misses_otherwise (elseBody : Option (List Expr)) :
    (otherwise eval elseBody).Misses (Expr.freeIdentifiersOfElse elseBody) := by
  cases elseBody with
  | none => exact misses_pure Value.null
  | some es => exact misses_body keeps misses .null es

theorem misses_firstClause (elseBody : Option (List Expr)) (cs : List (Clause Expr)) :
    (firstClause eval elseBody cs).Misses
      (Expr.freeIdentifiersOfClauses (Expr.freeIdentifiersOfElse elseBody) cs) := by
  induction cs with
  | nil => exact misses_otherwise keeps misses elseBody
  | cons c cs ih =>
    exact (misses c.condition).bind (keeps c.condition) fun _ =>
      (misses_body keeps misses .null c.body).ite ih

end Parts

end Run

open Run in
/-- An evaluation misses no names but at the free identifiers of its expression. -/
theorem misses_evaluate (room : Nat) (e : Expr) : (evaluate room e).Misses e.freeIdentifiers := by
  induction room generalizing e with
  | zero => exact misses_tooDeep
  | succ room ih =>
    have keeps := keeps_evaluate room
    cases e with
    | literal value => exact misses_pure value
    | identifier name => exact misses_lookup name
    | unary operator right =>
      have applied := (ih right).bind (keeps right) (misses_applyUnary operator)
      rwa [List.append_nil] at applied
    | binary operator first second =>
      have applied := (ih first).bind (keeps first) fun a =>
        (ih second).bind (keeps second) (misses_applyBinary operator a)
      rwa [List.append_nil] at applied
    | logical operator first second =>
      exact (ih first).bind (keeps first) fun a => (misses_pure a).ite (ih second)
    | print operator body =>
      have printed := (misses_printEach keeps ih (lineEnding operator) body).bind
        (keeps_printEach keeps (lineEnding operator) body)
        fun _ => misses_pure Value.null
      rwa [List.append_nil] at printed
    | letIn bindings body =>
      exact (misses_bindEach_bind keeps ih (misses_body keeps ih .null body) bindings).inChild
    | ifThen condition thenBody elseBody =>
      exact (ih condition).bind (keeps condition) fun _ =>
        (misses_body keeps ih .null thenBody).ite (misses_otherwise keeps ih elseBody)
    | cond clauses elseBody => exact misses_firstClause keeps ih elseBody clauses

theorem Grammar.freeIdentifiers_phraseAt (level : Level) (e : Expr) :
    (phraseAt level e).freeIdentifiers = e.freeIdentifiers := by
  cases level <;> rfl

/-- **Closed expressions never meet an undefined identifier.**  Where the frames of a scope bind all
free names of an expression, no fault of its evaluation tells of an undefined identifier.  If in any
scope one does, it is about the lexeme of its token; the token is a free occurrence in the
expression, of a name that no frame binds, and wherever the expression was read, an identifier among
the tokens that were read. -/
theorem evaluate_isUndefined (room : Nat) (e : Expr) (s : Scope) :
    ((∀ name ∈ e.freeNames, s.Binds name) →
      ∀ f, (evaluate room e s).result = .error (.fault f) → ¬ f.IsUndefined) ∧
    ∀ f, (evaluate room e s).result = .error (.fault f) → f.IsUndefined →
      f.message = "Undefined identifier '" ++ f.token.lexeme ++ "'" ∧
      f.token ∈ e.freeIdentifiers ∧ f.token.lexeme ∈ e.freeNames ∧ ¬ s.Binds f.token.lexeme ∧
      ∀ limit level ts rest, Parser.expression limit level ts = .ok (e, rest) →
        ∃ w, ts = rest.prepend w ∧ f.token ∈ w ∧ f.token.kind = .identifier := by
  have missed (f : Fault) (result : (evaluate room e s).result = .error (.fault f))
      (undefined : f.IsUndefined) : f.cause = .undefinedIdentifier ∧
        f.token ∈ e.freeIdentifiers ∧ f.token.lexeme ∈ e.freeNames ∧
          ¬ s.Binds f.token.lexeme := by
    obtain ⟨t, cause⟩ := f
    obtain rfl : cause = .undefinedIdentifier := Fault.isUndefined_iff.1 undefined
    obtain ⟨mem, none⟩ := misses_evaluate room e s t result
    refine ⟨rfl, mem, ?_, Scope.get?_eq_none_iff.1 none⟩
    rw [Expr.freeNames_eq]
    exact List.mem_map_of_mem mem
  constructor
  · intro bound f result undefined
    obtain ⟨-, -, free, unbound⟩ := missed f result undefined
    exact unbound (bound _ free)
  · intro f result undefined
    obtain ⟨cause, mem, free, unbound⟩ := missed f result undefined
    refine ⟨by simp only [Fault.message, cause], mem, free, unbound, ?_⟩
    intro limit level ts rest read
    obtain ⟨w, rfl, d⟩ := (Parser.reads_expression limit level).sound read
    have identifiers := d.identifiersIn
    rw [freeIdentifiers_phraseAt] at identifiers
    exact ⟨w, rfl, (identifiers _ mem).2, (identifiers _ mem).1⟩

/-- In `(let [x y] (- x z))` only `y` and `z` are free.  Where both are bound, the operator is to
blame if anything is; where `z` is not, its token is, although the inner `x` was bound before. -/
theorem evaluate_isUndefined_of_let :
    let token (k : Kind) (lexeme : String) : Token := ⟨k, lexeme, .null, 1, 1⟩
    let x := token .identifier "x"
    let y := token .identifier "y"
    let z := token .identifier "z"
    let minus := token .minus "-"
    let rest : Tokens := ⟨[], token .eof "", rfl⟩
    let w := [token .lparen "(", token .letWord "let", token .lbracket "[", x, y,
      token .rbracket "]", token .lparen "(", minus, x, z, token .rparen ")", token .rparen ")"]
    let e := Expr.letIn [⟨x, .identifier y⟩] [.binary minus (.identifier x) (.identifier z)]
    let s : Scope := ⟨[("z", .null)], [[("y", .null)]]⟩
    let s' : Scope := ⟨[], [[("y", .null)]]⟩
    let undefined : Fault := ⟨z, .undefinedIdentifier⟩
    Parser.expression depthLimit .any (rest.prepend w) = .ok (e, rest) ∧
      (∀ name ∈ e.freeNames, s.Binds name) ∧
      (evaluate 3 e s).result = .error (.fault ⟨minus, .noNumbers⟩) ∧
      ¬ (⟨minus, .noNumbers⟩ : Fault).IsUndefined ∧
      (evaluate 3 e s').result = .error (.fault undefined) ∧ undefined.IsUndefined ∧
      z ∈ e.freeIdentifiers ∧ ¬ s'.Binds "z" := by
  intro token x y z minus rest w e s s' undefined
  have opened : Parser.expression (999 + 1) .any (rest.prepend w) =
      Parser.inside (Parser.expression 999) .letIn (token .letWord "let")
        (rest.prepend (w.drop 2)) :=
    @Parser.expression_form _ _ (token .lparen "(") _ (rest.prepend (w.drop 2)) _ rfl rfl rfl
  have bracket : Parser.expect .lbracket .bindingList (rest.prepend (w.drop 2)) =
      .ok (token .lbracket "[", rest.prepend (w.drop 3)) := rfl
  have name : Parser.current (rest.prepend (w.drop 3)) = .ok (x, rest.prepend (w.drop 3)) := rfl
  have bindings : Parser.bindings (Parser.expression 999 .any) (rest.prepend (w.drop 3)) =
      .ok ([⟨x, .identifier y⟩], rest.prepend (w.drop 6)) := rfl
  have content : Parser.body (Parser.expression 999 .any) (rest.prepend (w.drop 6)) =
      .ok ([.binary minus (.identifier x) (.identifier z)], rest.prepend (w.drop 11)) := rfl
  have read : Parser.expression depthLimit .any (rest.prepend w) = .ok (e, rest) := by
    rw [depthLimit, opened, Parser.inside, Parser.letIn, Parser.bind_ok bracket,
      Parser.bind_ok name, if_pos rfl, Parser.bind_ok bindings, Parser.bind_ok content]
    rfl
  have bound : ∀ name ∈ e.freeNames, s.Binds name := by
    have free : e.freeNames = ["y", "z"] := by decide
    simp [free, Scope.Binds, Scope.frames, s]
  have result : (evaluate 3 e s).result = .error (.fault ⟨minus, .noNumbers⟩) := rfl
  have result' : (evaluate 3 e s').result = .error (.fault undefined) := rfl
  have message : undefined.IsUndefined := ⟨"z", rfl⟩
  obtain ⟨-, mem, -, unbound, -⟩ := (evaluate_isUndefined 3 e s').2 undefined result' message
  exact ⟨read, bound, result, (evaluate_isUndefined 3 e s).1 bound _ result, result', message, mem,
    unbound⟩

end Lisplet
