import Lisplet.Expr.Outline
import Lisplet.Proofs.Evaluation.Sequence

/-!
# Room enough

An expression is evaluated with room to spare where there is room for as many levels as its outline
has (`shallow_evaluate`): each expression evaluated inside another stands at least one level below
it.  So whatever is shown as a tree within a limit is evaluated within that limit.
-/

namespace Lisplet

/-! ### Levels of outlines -/

namespace Outline

theorem depthOfList_le_iff {os : List Outline} {n : Nat} :
    depthOfList os ≤ n ↔ ∀ o ∈ os, o.depth ≤ n := by
  induction os with
  | nil => simp [depthOfList]
  | cons o os ih => rw [depthOfList, Nat.max_le, ih, List.forall_mem_cons]

theorem depth_node_le_iff {label : String} {os : List Outline} {n : Nat} :
    (node label os).depth ≤ n + 1 ↔ ∀ o ∈ os, o.depth ≤ n := by
  rw [depth, Nat.succ_le_succ_iff, depthOfList_le_iff]

theorem depth_pos (o : Outline) : 0 < o.depth := by
  cases o
  exact Nat.succ_pos _

/-- What is inside a node has fewer levels. -/
theorem depth_le_of_mem {label : String} {os : List Outline} {n : Nat}
    (h : (node label os).depth ≤ n) : ∀ o ∈ os, o.depth ≤ n :=
  depth_node_le_iff.1 (Nat.le_succ_of_le h)

end Outline

namespace Expr

open Outline

theorem outlines_eq_map (es : List Expr) : outlines es = es.map outline := by
  induction es with
  | nil => rfl
  | cons e es ih => rw [outlines, ih, List.map_cons]

theorem outlinesOfBindings_eq_map (bs : List (Binding Expr)) :
    outlinesOfBindings bs = bs.map outlineOfBinding := by
  induction bs with
  | nil => rfl
  | cons b bs ih => rw [outlinesOfBindings, ih, List.map_cons]

theorem outlinesOfClauses_eq_map (cs : List (Clause Expr)) :
    outlinesOfClauses cs = cs.map outlineOfClause := by
  induction cs with
  | nil => rfl
  | cons c cs ih => rw [outlinesOfClauses, ih, List.map_cons]

variable {n : Nat}

theorem depth_le_of_body {es : List Expr} (h : (bodyNode (outlines es)).depth ≤ n) :
    ∀ e ∈ es, e.outline.depth ≤ n := by
  intro e mem
  refine depth_le_of_mem h e.outline ?_
  rw [outlines_eq_map]
  exact List.mem_map_of_mem mem

theorem depth_le_of_bindings {bs : List (Binding Expr)}
    (h : ∀ o ∈ outlinesOfBindings bs, o.depth ≤ n) : ∀ b ∈ bs, b.value.outline.depth ≤ n := by
  intro ⟨name, value⟩ mem
  rw [outlinesOfBindings_eq_map] at h
  have node : (outlineOfBinding ⟨name, value⟩).depth ≤ n := h _ (List.mem_map_of_mem mem)
  exact depth_le_of_mem node _ List.mem_cons_self

theorem depth_le_of_clauses {cs : List (Clause Expr)}
    (h : ∀ o ∈ outlinesOfClauses cs, o.depth ≤ n) :
    ∀ c ∈ cs, c.condition.outline.depth ≤ n ∧ ∀ e ∈ c.body, e.outline.depth ≤ n := by
  intro ⟨condition, body⟩ mem
  rw [outlinesOfClauses_eq_map] at h
  have node : (outlineOfClause ⟨condition, body⟩).depth ≤ n := h _ (List.mem_map_of_mem mem)
  have inside := depth_le_of_mem node
  simp only [List.forall_mem_cons] at inside
  exact ⟨inside.1, depth_le_of_body inside.2.1⟩

theorem depth_le_of_else {elseBody : Option (List Expr)}
    (h : ∀ o ∈ outlinesOfElse elseBody, o.depth ≤ n) :
    ∀ es ∈ elseBody, ∀ e ∈ es, e.outline.depth ≤ n := by
  cases elseBody with
  | none => exact fun _ mem => by cases mem
  | some body =>
    intro es mem
    cases mem
    exact depth_le_of_body (h _ List.mem_cons_self)

end Expr

namespace Run

variable {α β : Type}

/-- The evaluation does not run out of room. -/
def Shallow (x : Run α) : Prop := ∀ s, (x s).result ≠ .error .tooDeep

theorem shallow_pure (a : α) : (pure a : Run α).Shallow := fun _ deep => by cases deep

theorem shallow_write (text : String) : (write text).Shallow := fun _ deep => by cases deep

theorem shallow_define (name : String) (value : Value) : (define name value).Shallow :=
  fun _ deep => by cases deep

theorem shallow_lift (r : Except Fault α) : (lift r).Shallow := by
  cases r with
  | ok a => exact shallow_pure a
  | error fault => exact fun _ deep => by cases deep

theorem shallow_lookup (name : Token) : (lookup name).Shallow := by
  intro s deep
  unfold lookup at deep
  split at deep <;> cases deep

theorem Shallow.bind {x : Run α} {k : α → Run β} (hx : x.Shallow) (hk : ∀ a, (k a).Shallow) :
    (x >>= k).Shallow := by
  intro s deep
  simp only [Bind.bind] at deep
  cases hr : (x s).result with
  | error halt =>
    simp only [hr] at deep
    cases deep
    exact hx s hr
  | ok a =>
    simp only [hr] at deep
    exact hk a _ deep

theorem Shallow.ite {c : Prop} [Decidable c] {x y : Run α} (hx : x.Shallow) (hy : y.Shallow) :
    (if c then x else y).Shallow := by
  split
  · exact hx
  · exact hy

theorem Shallow.inChild {x : Run α} (h : x.Shallow) : (inChild x).Shallow := fun s => h s.child

/-! ### Expressions -/

section Parts

variable {eval : Expr → Run Value}

theorem shallow_body {es : List Expr} (h : ∀ e ∈ es, (eval e).Shallow) (before : Value) :
    (body eval before es).Shallow := by
  induction es generalizing before with
  | nil => exact shallow_pure before
  | cons e es ih =>
    simp only [List.forall_mem_cons] at h
    exact h.1.bind (ih h.2)

theorem shallow_printEach {es : List Expr} (h : ∀ e ∈ es, (eval e).Shallow) (ending : String) :
    (printEach eval ending es).Shallow := by
  induction es with
  | nil => exact shallow_pure ()
  | cons e es ih =>
    simp only [List.forall_mem_cons] at h
    exact h.1.bind fun _ => (shallow_write _).bind fun _ => ih h.2

theorem shallow_bindEach {bs : List (Binding Expr)} (h : ∀ b ∈ bs, (eval b.value).Shallow) :
    (bindEach eval bs).Shallow := by
  induction bs with
  | nil => exact shallow_pure ()
  | cons b bs ih =>
    simp only [List.forall_mem_cons] at h
    exact h.1.bind fun _ => (shallow_define _ _).bind fun _ => ih h.2

theorem shallow_otherwise {elseBody : Option (List Expr)}
    (h : ∀ es ∈ elseBody, ∀ e ∈ es, (eval e).Shallow) : (otherwise eval elseBody).Shallow := by
  cases elseBody with
  | none => exact shallow_pure Value.null
  | some es => exact shallow_body (h es rfl) .null

theorem shallow_firstClause {elseBody : Option (List Expr)} {cs : List (Clause Expr)}
    (h : ∀ c ∈ cs, (eval c.condition).Shallow ∧ ∀ e ∈ c.body, (eval e).Shallow)
    (behind : ∀ es ∈ elseBody, ∀ e ∈ es, (eval e).Shallow) :
    (firstClause eval elseBody cs).Shallow := by
  induction cs with
  | nil => exact shallow_otherwise behind
  | cons c cs ih =>
    simp only [List.forall_mem_cons] at h
    exact h.1.1.bind fun _ => (shallow_body h.1.2 .null).ite (ih h.2)

end Parts

end Run

open Run Outline in
/-- With room for as many levels as the outline of an expression has, its evaluation does not run
out of room. -/
theorem shallow_evaluate {room : Nat} {e : Expr} (h : e.outline.depth ≤ room) :
    (evaluate room e).Shallow := by
  induction room generalizing e with
  | zero => exact absurd h (Nat.not_le_of_lt e.outline.depth_pos)
  | succ room ih =>
    cases e with
    | literal value => exact shallow_pure value
    | identifier name => exact shallow_lookup name
    | unary operator right =>
      have inside := depth_node_le_iff.1 h
      simp only [List.forall_mem_cons] at inside
      exact (ih inside.1).bind fun value => shallow_lift _
    | binary operator first second =>
      have inside := depth_node_le_iff.1 h
      simp only [List.forall_mem_cons] at inside
      exact (ih inside.1).bind fun a => (ih inside.2.1).bind fun b => shallow_lift _
    | logical operator first second =>
      have inside := depth_node_le_iff.1 h
      simp only [List.forall_mem_cons] at inside
      exact (ih inside.1).bind fun a => (shallow_pure a).ite (ih inside.2.1)
    | print operator content =>
      have inside := depth_node_le_iff.1 h
      simp only [List.forall_mem_cons] at inside
      have each := fun e mem => ih (Expr.depth_le_of_body inside.1 e mem)
      exact (shallow_printEach each _).bind fun _ => shallow_pure Value.null
    | letIn bindings content =>
      have inside := depth_node_le_iff.1 h
      simp only [List.forall_mem_append, List.forall_mem_cons] at inside
      have values := fun b mem => ih (Expr.depth_le_of_bindings inside.1 b mem)
      have each := fun e mem => ih (Expr.depth_le_of_body inside.2.1 e mem)
      exact ((shallow_bindEach values).bind fun _ => shallow_body each .null).inChild
    | ifThen condition thenBody elseBody =>
      have inside := depth_node_le_iff.1 h
      simp only [List.forall_mem_cons] at inside
      have each := fun e mem => ih (Expr.depth_le_of_body inside.2.1 e mem)
      have others := fun es mem e mem' => ih (Expr.depth_le_of_else inside.2.2 es mem e mem')
      exact (ih inside.1).bind fun _ => (shallow_body each .null).ite (shallow_otherwise others)
    | cond clauses elseBody =>
      have inside := depth_node_le_iff.1 h
      simp only [List.forall_mem_append] at inside
      have parts := Expr.depth_le_of_clauses inside.1
      have others := fun es mem e mem' => ih (Expr.depth_le_of_else inside.2 es mem e mem')
      exact shallow_firstClause
        (fun c mem => ⟨ih (parts c mem).1, fun e mem' => ih ((parts c mem).2 e mem')⟩) others

end Lisplet
