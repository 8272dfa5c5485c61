import Lisplet.Proofs.Evaluation.Sequence
import Lisplet.Proofs.Scoping.FreeNames

/-!
# Evaluation depends on free names alone

Scopes of any shape that give the free names of an expression the same meanings, or none, cannot be
told apart by its evaluation (`evaluate_eq_of_agree`).  `Run.Reads names x` says of single
evaluations that they come out the same in scopes that agree on the names.
-/

namespace Lisplet

/-- The scopes give each of the names the same value, or both none. -/
def Scope.Agree (names : List String) (s s' : Scope) : Prop :=
  ∀ name ∈ names, s.get? name = s'.get? name

namespace Run

variable {α β : Type} {names more : List String}

/-- In scopes that agree on the names, the evaluation prints the same and ends the same. -/
def Reads (names : List String) (x : Run α) : Prop :=
  ∀ s s', s.Agree names s' → (x s).output = (x s').output ∧ (x s).result = (x s').result

theorem Reads.mono {x : Run α} (h : x.Reads names) (sub : names ⊆ more) : x.Reads more :=
  fun s s' agree => h s s' fun name mem => agree name (sub mem)

theorem reads_pure (a : α) : (pure a : Run α).Reads [] := fun _ _ _ => ⟨rfl, rfl⟩

theorem reads_halt (h : Halt) : (halt h : Run α).Reads names := fun _ _ _ => ⟨rfl, rfl⟩

theorem reads_lift (r : Except Fault α) : (lift r).Reads [] := by
  cases r with
  | ok a => exact reads_pure a
  | error fault => exact reads_halt (.fault fault)

theorem reads_write (text : String) : (write text).Reads [] := fun _ _ _ => ⟨rfl, rfl⟩

theorem reads_lookup (name : Token) : (lookup name).Reads [name.lexeme] := by
  intro s s' agree
  have same : s.get? name.lexeme = s'.get? name.lexeme := agree _ List.mem_cons_self
  simp only [lookup, same]
  split <;> exact ⟨rfl, rfl⟩

/-- What gives the scope back as it was hands the agreement on to what follows. -/
theorem Reads.bind {x : Run α} {k : α → Run β} (hx : x.Reads names) (keeps : x.Keeps)
    (hk : ∀ a, (k a).Reads more) : (x >>= k).Reads (names ++ more) := by
  intro s s' agree
  obtain ⟨output, result⟩ := hx s s' fun name mem => agree name (List.mem_append_left more mem)
  simp only [Bind.bind, keeps s, keeps s', output, result]
  cases (x s').result with
  | error halt => exact ⟨rfl, rfl⟩
  | ok a =>
    obtain ⟨output', result'⟩ := hk a s s' fun name mem => agree name (List.mem_append_right _ mem)
    exact ⟨congrArg ((x s').output ++ ·) output', result'⟩

theorem Reads.ite {c : Prop} [Decidable c] {x y : Run α} (hx : x.Reads names) (hy : y.Reads more) :
    (if c then x else y).Reads (names ++ more) := by
  split
  · exact hx.mono (List.subset_append_left names more)
  · exact hy.mono (List.subset_append_right names more)

/-- A defined name means the same in both scopes from then on, whatever it meant before. -/
theorem Reads.define_bind {k : Run α} (hk : k.Reads names) (name : String) (value : Value) :
    (define name value >>= fun _ => k).Reads (names.filter (· ≠ name)) := by
  intro s s' agree
  have defined : (s.define name value).Agree names (s'.define name value) := by
    intro other mem
    by_cases same : other = name
    · rw [same, Scope.get?_define_self, Scope.get?_define_self]
    · rw [Scope.get?_define_of_ne s value same, Scope.get?_define_of_ne s' value same]
      exact agree other (List.mem_filter.2 ⟨mem, by simpa using same⟩)
  obtain ⟨output, result⟩ := hk _ _ defined
  exact ⟨congrArg ("" ++ ·) output, result⟩

theorem Reads.inChild {x : Run α} (h : x.Reads names) : (inChild x).Reads names := by
  intro s s' agree
  refine h s.child s'.child fun name mem => ?_
  rw [Scope.get?_child, Scope.get?_child, agree name mem]

/-! ### Expressions -/

section Parts

variable {eval : Expr → Run Value} (keeps : ∀ e, (eval e).Keeps)
  (reads : ∀ e, (eval e).Reads e.freeNames)
include keeps reads

theorem reads_body (before : Value) (es : List Expr) :
    (body eval before es).Reads (Expr.freeNamesOfAll es) := by
  induction es generalizing before with
  | nil => exact reads_pure before
  | cons e es ih => exact (reads e).bind (keeps e) fun a => ih a

theorem reads_printEach (ending : String) (es : List Expr) :
    (printEach eval ending es).Reads (Expr.freeNamesOfAll es) := by
  induction es with
  | nil => exact reads_pure ()
  | cons e es ih =>
    exact (reads e).bind (keeps e) fun _ => (reads_write _).bind (keeps_write _)
      fun _ => ih

/-- Bindings and what is evaluated behind them in the same scope.  Each value is evaluated before
its name is defined. -/
theorem reads_bindEach_bind {k : Run α} (hk : k.Reads names) (bs : List (Binding Expr)) :
    (bindEach eval bs >>= fun _ => k).Reads (Expr.freeNamesOfBindings names bs) := by
  induction bs with
  | nil => exact hk
  | cons b bs ih =>
    rw [bindEach_cons_bind]
    exact (reads b.value).bind (keeps b.value) fun value => ih.define_bind b.name.lexeme value

theorem reads_otherwise (elseBody : Option (List Expr)) :
    (otherwise eval elseBody).Reads (Expr.freeNamesOfElse elseBody) := by
  cases elseBody with
  | none => exact reads_pure Value.null
  | some es => exact reads_body keeps reads .null es

theorem reads_firstClause (elseBody : Option (List Expr)) (cs : List (Clause Expr)) :
    (firstClause eval elseBody cs).Reads
      (Expr.freeNamesOfClauses (Expr.freeNamesOfElse elseBody) cs) := by
  induction cs with
  | nil => exact reads_otherwise keeps reads elseBody
  | cons c cs ih =>
    exact (reads c.condition).bind (keeps c.condition) fun _ =>
      (reads_body keeps reads .null c.body).ite ih

end Parts

end Run

open Run in
/-- An evaluation reads no names but the free ones of its expression. -/
theorem reads_evaluate (room : Nat) (e : Expr) : (evaluate room e).Reads e.freeNames := by
  induction room generalizing e with
  | zero => exact reads_halt .tooDeep
  | succ room ih =>
    have keeps := keeps_evaluate room
    cases e with
    | literal value => exact reads_pure value
    | identifier name => exact reads_lookup name
    | unary operator right =>
      have applied := (ih right).bind (keeps right) fun value =>
        reads_lift (applyUnary operator value)
      rwa [List.append_nil] at applied
    | binary operator first second =>
      have applied := (ih first).bind (keeps first) fun a =>
        (ih second).bind (keeps second) fun b => reads_lift (applyBinary operator a b)
      rwa [List.append_nil] at applied
    | logical operator first second =>
      exact (ih first).bind (keeps first) fun a => (reads_pure a).ite (ih second)
    | print operator body =>
      have printed := (reads_printEach keeps ih (lineEnding operator) body).bind
        (keeps_printEach keeps (lineEnding operator) body)
        fun _ => reads_pure Value.null
      rwa [List.append_nil] at printed
    | letIn bindings body =>
      exact (reads_bindEach_bind keeps ih (reads_body keeps ih .null body) bindings).inChild
    | ifThen condition thenBody elseBody =>
      exact (ih condition).bind (keeps condition) fun _ =>
        (reads_body keeps ih .null thenBody).ite (reads_otherwise keeps ih elseBody)
    | cond clauses elseBody => exact reads_firstClause keeps ih elseBody clauses

/-- **Scoping is lexical.**  In two scopes, of whatever shapes, that agree on the free names of an
expression, its evaluation prints the same and ends with the same value or halts the same, at the
same token.  However it ends, it changes no binding of the scope it began in nor of any enclosing
one. -/
theorem evaluate_eq_of_agree {e : Expr} {s s' : Scope}
    (agree : ∀ name ∈ e.freeNames, s.get? name = s'.get? name) (room : Nat) :
    (evaluate room e s).output = (evaluate room e s').output ∧
      (evaluate room e s).result = (evaluate room e s').result ∧
      (evaluate room e s).scope = s ∧ (evaluate room e s').scope = s' := by
  obtain ⟨output, result⟩ := reads_evaluate room e s s' agree
  exact ⟨output, result, scope_evaluate room e s, scope_evaluate room e s'⟩

/-- In `(let [x x y (- x z)] y)` the first `x` is the one outside, and `y` is not.  So a scope that
binds `y` and one that binds `w` cannot be told apart, and in both `z` is undefined. -/
theorem evaluate_let_of_agree :
    let token (k : Kind) (lexeme : String) : Token := ⟨k, lexeme, .null, 1, 1⟩
    let name (lexeme : String) := Expr.identifier (token .identifier lexeme)
    let e := Expr.letIn
      [⟨token .identifier "x", name "x"⟩,
        ⟨token .identifier "y", .binary (token .minus "-") (name "x") (name "z")⟩]
      [name "y"]
    let s : Scope := ⟨[("y", .boolean true)], [[("x", .null)]]⟩
    let s' : Scope := ⟨[], [[("w", .null), ("x", .null)]]⟩
    (∀ name ∈ e.freeNames, s.get? name = s'.get? name) ∧
      (evaluate 3 e s).result = (evaluate 3 e s').result ∧
      (evaluate 3 e s').result = .error (.fault ⟨token .identifier "z", .undefinedIdentifier⟩) := by
  intro token name e s s'
  have agree : ∀ name ∈ e.freeNames, s.get? name = s'.get? name := by decide
  obtain ⟨-, result, -, -⟩ := evaluate_eq_of_agree agree 3
  exact ⟨agree, result, rfl⟩

end Lisplet
