import Lisplet.Proofs.Evaluation.Frame

/-!
# Programs one after the other

Evaluations in a sequence may be bracketed in any way, so a program can be evaluated in parts
(`interpret_append`).  Since each part gives the scope back as it was, the parts do not see each
other: a later one runs as it would by itself, unless an earlier one has halted
(`interpret_append_of_ok`, `interpret_append_of_error`).  So a program prints what its expressions
print, each by itself, up to the first that halts (`interpret_of_finish`, `interpret_of_halt`).
`outcomes` tells the same expression by expression (`interpret_eq_of_outcomes`).
-/

namespace Lisplet

namespace Run

variable {α β γ : Type}

theorem pure_bind (a : α) (k : α → Run β) : (pure a >>= k : Run β) = k a := by
  funext s
  simp [Bind.bind, Pure.pure]

theorem bind_of_error {x : Run α} {k : α → Run β} {s s' : Scope} {output : String} {halt : Halt}
    (h : x s = ⟨output, s', .error halt⟩) : (x >>= k) s = ⟨output, s', .error halt⟩ := by
  simp only [Bind.bind, h]

theorem bind_of_ok {x : Run α} {k : α → Run β} {s s' s'' : Scope} {output output' : String} {a : α}
    {result : Except Halt β} (h : x s = ⟨output, s', .ok a⟩)
    (h' : k a s' = ⟨output', s'', result⟩) :
    (x >>= k) s = ⟨output ++ output', s'', result⟩ := by
  simp only [Bind.bind, h, h']

theorem bind_of_pure {x : Run α} {k : α → Run β} {s s' : Scope} {output : String} {a : α} {b : β}
    (h : x s = ⟨output, s', .ok a⟩) (hk : k a = pure b) :
    (x >>= k) s = ⟨output, s', .ok b⟩ := by
  rw [bind_of_ok h (congrFun hk s'), String.append_empty]

theorem bind_pure (x : Run α) : (x >>= fun a => pure a : Run α) = x := by
  funext s
  simp only [Bind.bind, Pure.pure]
  cases h : (x s).result <;> simp [← h]

theorem bind_assoc (x : Run α) (k : α → Run β) (m : β → Run γ) :
    (x >>= k) >>= m = x >>= fun a => k a >>= m := by
  funext s
  simp only [Bind.bind]
  cases (x s).result with
  | error halt => rfl
  | ok a =>
    cases h : (k a (x s).scope).result with
    | error halt => simp [h]
    | ok b => simp [h, String.append_assoc]

/-- Bindings and what is evaluated behind them: the first value, then its name, then the rest. -/
theorem bindEach_cons_bind (eval : Expr → Run Value) (b : Binding Expr) (bs : List (Binding Expr))
    (k : Run α) : (bindEach eval (b :: bs) >>= fun _ => k) =
      eval b.value >>= fun value => define b.name.lexeme value >>= fun _ =>
        bindEach eval bs >>= fun _ => k := by
  simp only [bindEach, bind_assoc]

end Run

variable {room : Nat} {es es' : List Expr} {s : Scope}

theorem interpret_append (room : Nat) (es es' : List Expr) :
    interpret room (es ++ es') = interpret room es >>= fun _ => interpret room es' := by
  induction es with
  | nil => exact (Run.pure_bind () fun _ => interpret room es').symm
  | cons e es ih => rw [List.cons_append, interpret, interpret, ih, Run.bind_assoc]

theorem interpret_append_of_error {halt : Halt} (h : (interpret room es s).result = .error halt) :
    interpret room (es ++ es') s = interpret room es s := by
  rw [interpret_append]
  simp only [Bind.bind, h]
  rw [← h]

theorem interpret_append_of_ok (h : (interpret room es s).result = .ok ()) :
    interpret room (es ++ es') s =
      { interpret room es' s with
        output := (interpret room es s).output ++ (interpret room es' s).output } := by
  rw [interpret_append]
  simp only [Bind.bind, h, scope_interpret]

/-! ### Expression by expression -/

/-- The expression has a value in the scope. -/
def Expr.Finishes (room : Nat) (s : Scope) (e : Expr) : Prop :=
  ∃ v, (evaluate room e s).result = .ok v

/-- What expressions print in a scope, each by itself. -/
def outputOf (room : Nat) (s : Scope) (es : List Expr) : String :=
  String.join (es.map fun e => (evaluate room e s).output)

/-- A program of expressions that have values prints what they print and comes to its end. -/
theorem interpret_of_finish (h : ∀ e ∈ es, e.Finishes room s) :
    (interpret room es s).output = outputOf room s es ∧
      (interpret room es s).result = .ok () := by
  induction es with
  | nil => exact ⟨String.join_nil.symm, rfl⟩
  | cons e es ih =>
    obtain ⟨⟨v, hv⟩, others⟩ := List.forall_mem_cons.1 h
    obtain ⟨output, result⟩ := ih others
    simp only [interpret, Bind.bind, hv, scope_evaluate, output, result, outputOf, List.map_cons,
      String.join_cons, and_self]

/-- A program halts as the first expression does that halts; what follows that is not evaluated. -/
theorem interpret_of_halt {e : Expr} {halt : Halt} (h : ∀ b ∈ es, b.Finishes room s)
    (halted : (evaluate room e s).result = .error halt) (after : List Expr) :
    (interpret room (es ++ e :: after) s).output =
        outputOf room s es ++ (evaluate room e s).output ∧
      (interpret room (es ++ e :: after) s).result = .error halt := by
  obtain ⟨output, result⟩ := interpret_of_finish h
  rw [interpret_append_of_ok result]
  simp only [interpret, Bind.bind, halted, output, and_self]

/-- The outcomes of a program are those of its expressions, each by itself.  They end with the last
expression, or with the first that halts. -/
theorem outcomes_of_finish (h : ∀ e ∈ es, e.Finishes room s) (after : List Expr) :
    outcomes room s (es ++ after) =
      es.map (fun e => evaluate room e s) ++ outcomes room s after := by
  induction es with
  | nil => rfl
  | cons e es ih =>
    obtain ⟨⟨v, hv⟩, others⟩ := List.forall_mem_cons.1 h
    simp only [List.cons_append, outcomes, hv, scope_evaluate, ih others, List.map_cons]

theorem outcomes_of_halt {e : Expr} {halt : Halt}
    (halted : (evaluate room e s).result = .error halt) (after : List Expr) :
    outcomes room s (e :: after) = [evaluate room e s] := by
  simp only [outcomes, halted]

/-- A program prints what its outcomes print, leaves the scope as all of them do, and halts just as
one of them does. -/
theorem interpret_eq_of_outcomes (room : Nat) (es : List Expr) (s : Scope) :
    (interpret room es s).output = String.join ((outcomes room s es).map Outcome.output) ∧
      (∀ o ∈ outcomes room s es, o.scope = (interpret room es s).scope) ∧
      ∀ halt, (interpret room es s).result = .error halt ↔
        ∃ o ∈ outcomes room s es, o.result = .error halt := by
  rw [scope_interpret]
  induction es with
  | nil => exact ⟨String.join_nil.symm, by simp [outcomes], by simp [interpret, outcomes, pure]⟩
  | cons e es ih =>
    obtain ⟨output, scopes, halts⟩ := ih
    cases result : (evaluate room e s).result with
    | error halt =>
      rw [outcomes_of_halt result]
      simp [interpret, Bind.bind, result, scope_evaluate, eq_comm]
    | ok v =>
      have next : outcomes room s (e :: es) = evaluate room e s :: outcomes room s es := by
        simp only [outcomes, result, scope_evaluate]
      rw [next]
      refine ⟨?_, List.forall_mem_cons.2 ⟨scope_evaluate room e s, scopes⟩, fun halt => ?_⟩
      · simp only [interpret, Bind.bind, result, scope_evaluate, output, List.map_cons,
          String.join_cons]
      · simp [interpret, Bind.bind, result, scope_evaluate, halts]

end Lisplet
