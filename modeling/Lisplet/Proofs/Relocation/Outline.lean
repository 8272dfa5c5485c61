import Lisplet.Expr.Outline
import Lisplet.Proofs.Relocation.Basic

/-!
# Outlines of relocated expressions

Labels show lexemes and values, never places.  So a relocated expression has the same outline
(`Expr.outline_relocate`), and is displayed by the same text.
-/

namespace Lisplet.Expr

variable (f : Relocation)

theorem labelOf_move (form : String) (t : Token) : labelOf form (f t) = labelOf form t := by
  rw [labelOf, labelOf, f.lexeme_move]

mutual

/-- A relocated expression has the same outline. -/
theorem outline_relocate : ∀ e : Expr, (e.relocate f).outline = e.outline
  | literal _ => rfl
  | identifier _ => by simp only [relocate, outline, labelOf_move]
  | unary _ right => by simp only [relocate, outline, labelOf_move, outline_relocate right]
  | binary _ first second => by
    simp only [relocate, outline, labelOf_move, outline_relocate first, outline_relocate second]
  | logical _ first second => by
    simp only [relocate, outline, labelOf_move, outline_relocate first, outline_relocate second]
  | print _ body => by
    simp only [relocate, outline, labelOf_move, outlines_relocateAll body]
  | letIn bindings body => by
    simp only [relocate, outline, outlinesOfBindings_relocateBindings bindings,
      outlines_relocateAll body]
  | ifThen condition thenBody elseBody => by
    simp only [relocate, outline, outline_relocate condition, outlines_relocateAll thenBody,
      outlinesOfElse_relocateElse elseBody]
  | cond clauses elseBody => by
    simp only [relocate, outline, outlinesOfClauses_relocateClauses clauses,
      outlinesOfElse_relocateElse elseBody]

theorem outlines_relocateAll : ∀ es : List Expr, outlines (relocateAll f es) = outlines es
  | [] => rfl
  | e :: es => by simp only [relocateAll, outlines, outline_relocate e, outlines_relocateAll es]

theorem outlinesOfElse_relocateElse :
    ∀ elseBody : Option (List Expr), outlinesOfElse (relocateElse f elseBody) =
      outlinesOfElse elseBody
  | none => rfl
  | some body => by simp only [relocateElse, outlinesOfElse, outlines_relocateAll body]

theorem outlinesOfBindings_relocateBindings :
    ∀ bs : List (Binding Expr), outlinesOfBindings (relocateBindings f bs) = outlinesOfBindings bs
  | [] => rfl
  | ⟨_, value⟩ :: bs => by
    simp only [relocateBindings, outlinesOfBindings, outlineOfBinding, labelOf_move,
      outline_relocate value, outlinesOfBindings_relocateBindings bs]

theorem outlinesOfClauses_relocateClauses :
    ∀ cs : List (Clause Expr), outlinesOfClauses (relocateClauses f cs) = outlinesOfClauses cs
  | [] => rfl
  | ⟨condition, body⟩ :: cs => by
    simp only [relocateClauses, outlinesOfClauses, outlineOfClause, outline_relocate condition,
      outlines_relocateAll body, outlinesOfClauses_relocateClauses cs]

end

/-- A relocated expression is displayed by the same text, or by none. -/
theorem display?_relocate (levels : Nat) (e : Expr) :
    (e.relocate f).display? levels = e.display? levels := by
  rw [display?, display?, outline_relocate]

end Lisplet.Expr
