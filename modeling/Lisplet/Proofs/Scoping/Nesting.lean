import Lisplet.Proofs.Evaluation.Depth
import Lisplet.Proofs.Evaluation.Room
import Lisplet.Proofs.Scoping.Dependence

/-!
# One `let` or many

A `let` fills one scope with all of its bindings.  Nested ones, each with a single binding, fill a
scope each (`Expr.letEach`).  What can be seen is the same, with names bound again or not
(`evaluate_letEach`): behind any of the bindings, the scopes of the one and of the others have
different shapes, but every name means the same (`Scope.Alike`).
-/

namespace Lisplet

/-- A `let` for each binding, each inside the one before it, and the content inside the last. -/
def Expr.letEach : Binding Expr → List (Binding Expr) → List Expr → Expr
  | b, [], content => .letIn [b] content
  | b, b' :: bs, content => .letIn [b] [letEach b' bs content]

/-- Every name means the same, or nothing, in both scopes. -/
def Scope.Alike (s s' : Scope) : Prop := ∀ name, s.get? name = s'.get? name

namespace Scope.Alike

variable {s s' : Scope}

theorem define (h : s.Alike s') (name : String) (value : Value) :
    (s.define name value).Alike (s'.define name value) := by
  intro other
  by_cases same : other = name
  · rw [same, get?_define_self, get?_define_self]
  · rw [get?_define_of_ne s value same, get?_define_of_ne s' value same, h other]

theorem child_left (h : s.Alike s') : s.child.Alike s' := fun name => by rw [get?_child, h name]

theorem child_right (h : s.Alike s') : s.Alike s'.child := fun name => by rw [get?_child, h name]

end Scope.Alike

namespace Run

variable {α β : Type} {x y : Run α}

/-- Where `x` does not run out of room, `y` prints the same and ends the same, in any scope in which
every name means the same. -/
def SimulatedBy (x y : Run α) : Prop :=
  ∀ s s', s.Alike s' → (x s).result ≠ .error .tooDeep →
    (y s').output = (x s).output ∧ (y s').result = (x s).result

theorem Approximates.simulatedBy {names : List String} (h : x.Approximates y)
    (reads : y.Reads names) : x.SimulatedBy y := by
  intro s s' alike shallow
  obtain ⟨output, result⟩ := reads s s' fun name _ => alike name
  rw [← output, ← result, h s shallow]
  exact ⟨rfl, rfl⟩

theorem SimulatedBy.bind {k k' : α → Run β} (hx : x.SimulatedBy y) (keeps : x.Keeps)
    (keeps' : y.Keeps) (hk : ∀ a, (k a).SimulatedBy (k' a)) :
    (x >>= k).SimulatedBy (y >>= k') := by
  intro s s' alike shallow
  obtain ⟨output, result⟩ := hx s s' alike fun deep => shallow (by simp only [Bind.bind, deep])
  simp only [Bind.bind, keeps s, keeps' s', output, result] at shallow ⊢
  cases hr : (x s).result with
  | error halt => exact ⟨rfl, rfl⟩
  | ok a =>
    simp only [hr] at shallow
    obtain ⟨output', result'⟩ := hk a s s' alike shallow
    exact ⟨congrArg ((x s).output ++ ·) output', result'⟩

theorem SimulatedBy.define_bind {k k' : Run α} (h : k.SimulatedBy k') (name : String)
    (value : Value) :
    (define name value >>= fun _ => k).SimulatedBy (define name value >>= fun _ => k') := by
  intro s s' alike shallow
  obtain ⟨output, result⟩ := h _ _ (alike.define name value) shallow
  exact ⟨congrArg ("" ++ ·) output, result⟩

/-! A new scope means what the one around it does. -/

theorem SimulatedBy.inChild_left (h : x.SimulatedBy y) : (inChild x).SimulatedBy y :=
  fun _ s' alike => h _ s' alike.child_left

theorem SimulatedBy.inChild_right (h : x.SimulatedBy y) : x.SimulatedBy (inChild y) :=
  fun s _ alike => h s _ alike.child_right

theorem simulatedBy_of_tooDeep (y : Run α) : (halt .tooDeep : Run α).SimulatedBy y :=
  fun _ _ _ shallow => absurd rfl shallow

end Run

open Run

section Nesting

variable {room room' : Nat}

theorem simulatedBy_evaluate (le : room ≤ room') (e : Expr) :
    (evaluate room e).SimulatedBy (evaluate room' e) :=
  (approximates_evaluate le e).simulatedBy (reads_evaluate room' e)

/-- What a `let` evaluates in its new scope. -/
def insideLet (room : Nat) (bs : List (Binding Expr)) (content : List Expr) : Run Value :=
  bindEach (evaluate room) bs >>= fun _ => body (evaluate room) .null content

theorem evaluate_letIn (room : Nat) (bs : List (Binding Expr)) (content : List Expr) :
    evaluate (room + 1) (.letIn bs content) = inChild (insideLet room bs content) := rfl

theorem insideLet_cons (b : Binding Expr) (bs : List (Binding Expr)) (content : List Expr) :
    insideLet room (b :: bs) content = evaluate room b.value >>= fun value =>
      define b.name.lexeme value >>= fun _ => insideLet room bs content :=
  bindEach_cons_bind (evaluate room) b bs _

/-- A body of one expression is that expression. -/
theorem insideLet_nil_single (e : Expr) : insideLet room [] [e] = evaluate room e := by
  simp only [insideLet, bindEach, body, pure_bind, bind_pure]

theorem simulatedBy_insideLet (le : room ≤ room') (bs : List (Binding Expr))
    (content : List Expr) :
    (insideLet room bs content).SimulatedBy (insideLet room' bs content) := by
  have keeps := keeps_evaluate room'
  have reads := reads_evaluate room'
  have more : ∀ e, (evaluate room e).Approximates (evaluate room' e) := approximates_evaluate le
  have approximates : (insideLet room bs content).Approximates (insideLet room' bs content) :=
    (approximates_bindEach more bs).bind fun _ => approximates_body more .null content
  exact approximates.simulatedBy
    (reads_bindEach_bind keeps reads (reads_body keeps reads .null content) bs)

/-- The first binding of both is evaluated outside of what the others are evaluated in. -/
theorem SimulatedBy.insideLet_cons {b : Binding Expr} {bs bs' : List (Binding Expr)}
    {content content' : List Expr} (le : room ≤ room')
    (h : (insideLet room bs content).SimulatedBy (insideLet room' bs' content')) :
    (insideLet room (b :: bs) content).SimulatedBy (insideLet room' (b :: bs') content') := by
  rw [Lisplet.insideLet_cons, Lisplet.insideLet_cons]
  exact (simulatedBy_evaluate le b.value).bind (keeps_evaluate room _) (keeps_evaluate room' _)
    fun value => h.define_bind b.name.lexeme value

/-- Nested, the last binding needs room for as many more levels as there are bindings before it. -/
theorem insideLet_simulatedBy_letEach (b : Binding Expr) (bs : List (Binding Expr))
    (content : List Expr) : (insideLet room (b :: bs) content).SimulatedBy
      (evaluate (room + bs.length + 1) (.letEach b bs content)) := by
  induction bs generalizing b with
  | nil => exact (simulatedBy_insideLet (Nat.le_refl room) [b] content).inChild_right
  | cons b' bs ih =>
    rw [Expr.letEach, evaluate_letIn]
    refine (SimulatedBy.insideLet_cons (by omega) ?_).inChild_right
    rw [insideLet_nil_single]
    exact ih b'

theorem letEach_simulatedBy_insideLet (b : Binding Expr) (bs : List (Binding Expr))
    (content : List Expr) : ∀ n ≤ room + 1, (evaluate n (.letEach b bs content)).SimulatedBy
      (insideLet room (b :: bs) content) := by
  induction bs generalizing b with
  | nil =>
    intro n le
    cases n with
    | zero => exact simulatedBy_of_tooDeep _
    | succ n => exact (simulatedBy_insideLet (by omega) [b] content).inChild_left
  | cons b' bs ih =>
    intro n le
    cases n with
    | zero => exact simulatedBy_of_tooDeep _
    | succ n =>
      rw [Expr.letEach, evaluate_letIn]
      refine (SimulatedBy.insideLet_cons (by omega) ?_).inChild_left
      rw [insideLet_nil_single]
      exact ih b' n (by omega)

/-- With room for a level more for each binding behind the first, the nested ones come to the same.
-/
theorem evaluate_letEach_of_letIn {b : Binding Expr} {bs : List (Binding Expr)}
    {content : List Expr} {s : Scope}
    (shallow : (evaluate room (.letIn (b :: bs) content) s).result ≠ .error .tooDeep) :
    evaluate (room + bs.length) (.letEach b bs content) s =
      evaluate room (.letIn (b :: bs) content) s := by
  cases room with
  | zero => exact absurd rfl shallow
  | succ room =>
    have simulated : (evaluate (room + 1) (.letIn (b :: bs) content)).SimulatedBy
        (evaluate (room + bs.length + 1) (.letEach b bs content)) :=
      (insideLet_simulatedBy_letEach b bs content).inChild_left
    obtain ⟨output, result⟩ := simulated s s (fun _ => rfl) shallow
    rw [Nat.succ_add]
    exact evaluate_ext output result

theorem evaluate_letIn_of_letEach {b : Binding Expr} {bs : List (Binding Expr)}
    {content : List Expr} {s : Scope}
    (shallow : (evaluate room (.letEach b bs content) s).result ≠ .error .tooDeep) :
    evaluate room (.letIn (b :: bs) content) s = evaluate room (.letEach b bs content) s := by
  cases room with
  | zero => exact absurd rfl shallow
  | succ room =>
    have simulated : (evaluate (room + 1) (.letEach b bs content)).SimulatedBy
        (evaluate (room + 1) (.letIn (b :: bs) content)) :=
      (letEach_simulatedBy_insideLet b bs content _ (Nat.le_refl _)).inChild_right
    obtain ⟨output, result⟩ := simulated s s (fun _ => rfl) shallow
    exact evaluate_ext output result

end Nesting

/-- **A `let` of many bindings is nested ones of one binding.**  In every scope, whether or not a
name is bound again, they print the same and have the same value or halt for the same reason at the
same token, wherever both have room enough.  The one `let` has room enough where there is room for
its levels; where it has, the nested ones have with room for a level more for each binding behind
the first; and where they have, the one has. -/
theorem evaluate_letEach (b : Binding Expr) (bs : List (Binding Expr)) (content : List Expr)
    (s : Scope) :
    let one := Expr.letIn (b :: bs) content
    let nested := Expr.letEach b bs content
    (∀ room room', (evaluate room one s).result ≠ .error .tooDeep →
      (evaluate room' nested s).result ≠ .error .tooDeep →
        evaluate room' nested s = evaluate room one s) ∧
    (∀ room, one.outline.depth ≤ room → (evaluate room one s).result ≠ .error .tooDeep) ∧
    (∀ room, (evaluate room one s).result ≠ .error .tooDeep →
      (evaluate (room + bs.length) nested s).result ≠ .error .tooDeep) ∧
    ∀ room, (evaluate room nested s).result ≠ .error .tooDeep →
      (evaluate room one s).result ≠ .error .tooDeep := by
  intro one nested
  refine ⟨fun room room' shallow shallow' => ?_, fun room levels => shallow_evaluate levels s,
    fun room shallow => ?_, fun room shallow => ?_⟩
  · have same : evaluate room' one s = evaluate room' nested s :=
      evaluate_letIn_of_letEach shallow'
    rw [← same] at shallow' ⊢
    exact evaluate_eq_of_shallow shallow shallow'
  · rwa [evaluate_letEach_of_letIn shallow]
  · rwa [evaluate_letIn_of_letEach shallow]

/-- Outside, `x` is true.  In `(let [x x y x x null] (println y) z)` the inner `x` is bound twice,
`y` is what the outer one is, and `z` is undefined.  Nested, the bindings print `true` as well and
blame the same `z`. -/
theorem evaluate_letEach_of_rebound :
    let token (k : Kind) (lexeme : String) : Token := ⟨k, lexeme, .null, 1, 1⟩
    let x := token .identifier "x"
    let y := token .identifier "y"
    let z := token .identifier "z"
    let first : Binding Expr := ⟨x, .identifier x⟩
    let others : List (Binding Expr) := [⟨y, .identifier x⟩, ⟨x, .literal .null⟩]
    let content := [Expr.print (token .println "println") [.identifier y], .identifier z]
    let s : Scope := ⟨[("x", .boolean true)], []⟩
    let outcome : Outcome Value := ⟨"true\n", s, .error (.fault ⟨z, .undefinedIdentifier⟩)⟩
    evaluate 3 (.letIn (first :: others) content) s = outcome ∧
      evaluate 5 (.letEach first others content) s = outcome := by
  intro token x y z first others content s outcome
  have one : evaluate 3 (.letIn (first :: others) content) s = outcome := rfl
  have shallow : (evaluate 3 (.letIn (first :: others) content) s).result ≠ .error .tooDeep := by
    rw [one]
    nofun
  obtain ⟨same, -, room, -⟩ := evaluate_letEach first others content s
  exact ⟨one, (same 3 5 shallow (room 3 shallow)).trans one⟩

end Lisplet
