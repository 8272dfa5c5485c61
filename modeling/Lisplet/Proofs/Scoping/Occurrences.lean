import Lisplet.Proofs.Grammar.Derivation
import Lisplet.Proofs.Scoping.FreeNames

/-!
# Where names occur in a text

The free identifiers of a tree are tokens of the text it was read from, and identifiers there.  This
is shown for all phrases of the grammar together, by induction on what derives them
(`Derives.identifiersIn`).
-/

namespace Lisplet

open Grammar

/-- The free identifiers of what a phrase stands for, one part by itself after the other. -/
def Grammar.Phrase.freeIdentifiers : Phrase → List Token
  | .program es | .body es => Expr.freeIdentifiersOfAll es
  | .expression e | .equality e | .comparison e | .binary e | .unary e | .literal e
  | .operation _ e | .signed e | .predicate e | .letIn e | .print e | .ifThen e | .cond e =>
    e.freeIdentifiers
  | .binding b => b.value.freeIdentifiers
  | .clause c => c.condition.freeIdentifiers ++ Expr.freeIdentifiersOfAll c.body
  | .otherwise elseBody => Expr.freeIdentifiersOfElse elseBody

theorem Grammar.Phrase.freeIdentifiers_of_mem_alternatives {p q : Phrase}
    (h : q ∈ p.alternatives) : q.freeIdentifiers = p.freeIdentifiers := by
  cases p <;> simp only [alternatives, List.mem_cons, List.not_mem_nil, or_false] at h <;>
    rcases h with rfl | rfl | rfl | rfl | rfl | rfl <;> rfl

theorem Grammar.Operation.freeIdentifiers_node (o : Operation) (operator : Token)
    (first second : Expr) : (o.node operator first second).freeIdentifiers =
      first.freeIdentifiers ++ second.freeIdentifiers := by
  cases o <;> rfl

theorem Grammar.Operation.freeIdentifiers_operand (o : Operation) (e : Expr) :
    (o.operand e).freeIdentifiers = e.freeIdentifiers := by
  cases o <;> rfl

theorem Grammar.Operation.freeIdentifiers_foldl (o : Operation) (operator : Token) (e : Expr)
    (es : List Expr) : (es.foldl (o.node operator) e).freeIdentifiers =
      e.freeIdentifiers ++ Expr.freeIdentifiersOfAll es := by
  induction es generalizing e with
  | nil => simp [Expr.freeIdentifiersOfAll]
  | cons e' es ih => simp [ih, freeIdentifiers_node, Expr.freeIdentifiersOfAll]

namespace Grammar

/-- The tokens are identifiers among those of `w`. -/
def IdentifiersIn (w ts : List Token) : Prop := ∀ t ∈ ts, t.kind = .identifier ∧ t ∈ w

theorem Parenthesized.subset {v w : List Token} (h : Parenthesized v w) : v ⊆ w := by
  obtain ⟨opening, closing, -, -, rfl⟩ := h
  exact fun t mem => List.mem_cons_of_mem _ (List.mem_append_left _ mem)

theorem subset_words {α : Type} {parts : List (List Token × α)} {x : List Token × α}
    (mem : x ∈ parts) : x.1 ⊆ words parts :=
  fun _ ht => mem_words.2 ⟨x, mem, ht⟩

namespace IdentifiersIn

variable {v w ts ts' : List Token}

theorem mono (h : IdentifiersIn v ts) (sub : v ⊆ w) : IdentifiersIn w ts :=
  fun t mem => ⟨(h t mem).1, sub (h t mem).2⟩

theorem append (h : IdentifiersIn v ts) (h' : IdentifiersIn w ts') :
    IdentifiersIn (v ++ w) (ts ++ ts') := by
  intro t mem
  rcases List.mem_append.1 mem with mem | mem
  · exact h.mono (List.subset_append_left v w) t mem
  · exact h'.mono (List.subset_append_right v w) t mem

theorem form {head : Token} (h : IdentifiersIn v ts) (form : Parenthesized (head :: v) w) :
    IdentifiersIn w ts :=
  h.mono (List.Subset.trans (List.subset_cons_self head v) form.subset)

theorem nil : IdentifiersIn w [] := fun _ mem => (List.not_mem_nil mem).elim

theorem all {parts : List (List Token × Expr)}
    (each : ∀ x ∈ parts, IdentifiersIn x.1 x.2.freeIdentifiers) :
    IdentifiersIn (words parts) (Expr.freeIdentifiersOfAll (trees parts)) := by
  induction parts with
  | nil => exact nil
  | cons x parts ih =>
    simp only [List.forall_mem_cons] at each
    exact each.1.append (ih each.2)

theorem bindings {parts : List (List Token × Binding Expr)}
    (each : ∀ x ∈ parts, IdentifiersIn x.1 x.2.value.freeIdentifiers)
    (inside : IdentifiersIn w ts) :
    IdentifiersIn (words parts ++ w) (Expr.freeIdentifiersOfBindings ts (trees parts)) := by
  intro t mem
  obtain mem | ⟨b, hb, mem⟩ := Expr.mem_of_freeIdentifiersOfBindings mem
  · exact inside.mono (List.subset_append_right _ _) t mem
  · obtain ⟨x, hx, rfl⟩ := List.mem_map.1 hb
    have sub := List.Subset.trans (subset_words hx) (List.subset_append_left _ w)
    exact (each x hx).mono sub t mem

theorem clauses {parts : List (List Token × Clause Expr)}
    (each : ∀ x ∈ parts, IdentifiersIn x.1
      (x.2.condition.freeIdentifiers ++ Expr.freeIdentifiersOfAll x.2.body))
    (behind : IdentifiersIn w ts) :
    IdentifiersIn (words parts ++ w) (Expr.freeIdentifiersOfClauses ts (trees parts)) := by
  intro t mem
  obtain ⟨c, hc, mem⟩ | mem := Expr.mem_freeIdentifiersOfClauses.1 mem
  · obtain ⟨x, hx, rfl⟩ := List.mem_map.1 hc
    have sub := List.Subset.trans (subset_words hx) (List.subset_append_left _ w)
    exact (each x hx).mono sub t (List.mem_append.2 mem)
  · exact behind.mono (List.subset_append_right _ _) t mem

end IdentifiersIn

/-- What occurs free in a phrase stands in its tokens, as an identifier. -/
theorem Derives.identifiersIn {p : Phrase} {w : List Token} (d : Derives p w) :
    IdentifiersIn w p.freeIdentifiers := by
  induction d with
  | alternative h _ ih => rwa [← Phrase.freeIdentifiers_of_mem_alternatives h]
  | program _ each | body _ each => exact .all each
  | operation _ _ _ _ form left right each =>
    simp only [Operation.freeIdentifiers_operand] at left right each
    rw [Phrase.freeIdentifiers, Operation.freeIdentifiers_foldl, Operation.freeIdentifiers_node]
    exact ((left.append right).append (.all each)).form form
  | signed _ _ _ ih | binding _ _ ih => exact ih.mono (List.subset_cons_self _ _)
  | predicate _ _ form ih | print _ _ form ih | elseBody _ _ form ih => exact ih.form form
  | constant | trueWord | falseWord | nullWord | elseAbsent => exact .nil
  | @identifier t kind => exact fun t' mem => by simpa [List.mem_singleton.1 mem] using kind
  | @letIn _ opening closing _ _ _ _ _ _ _ _ _ _ form each body =>
    have bindings := IdentifiersIn.bindings each (body.mono (List.subset_cons_self closing _))
    exact (bindings.mono (List.subset_cons_self opening _)).form form
  | @ifThen _ _ _ _ _ u _ _ _ _ _ _ _ _ thenParts _ form condition body otherwise =>
    rw [List.append_assoc u] at form
    exact (condition.append ((body.form thenParts).append otherwise)).form form
  | cond _ _ _ _ form each otherwise =>
    exact (IdentifiersIn.clauses each otherwise).form form
  | clause _ _ form condition body => exact (condition.append body).mono form.subset

end Grammar

end Lisplet
