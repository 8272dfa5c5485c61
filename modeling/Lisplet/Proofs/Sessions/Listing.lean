import Lisplet.Proofs.Sessions.Outcome

/-!
# What listings write

A listing has a line for each item up to the first that cannot be listed (`Work.listEach_append`).
Tokens can all be listed (`Work.showTokens_of_lex`); an expression can be listed unless its outline
has too many levels (`Work.showTree_of_shallow`, `Work.showTree_of_deep`).  The outlines of several
expressions are told all together or not at all (`Work.outlines_eq`).
-/

namespace Lisplet

/-- The trace of a listing with these lines. -/
def Trace.ofLines (lines : List String) : Trace :=
  { Trace.empty with listing := String.join (lines.map (· ++ "\n")) }

@[simp] theorem Trace.output_ofLines (lines : List String) : (ofLines lines).output = "" := rfl

@[simp] theorem Trace.listing_ofLines (lines : List String) :
    (ofLines lines).listing = String.join (lines.map (· ++ "\n")) := rfl

@[simp] theorem Trace.reports_ofLines (lines : List String) : (ofLines lines).reports = "" := rfl

theorem Trace.ofLines_cons (line : String) (lines : List String) :
    ofLines (line :: lines) =
      { Trace.empty with listing := line ++ "\n" }.append (ofLines lines) := by
  simp [ofLines, append, empty]

namespace Work

variable {α : Type} {source : String} {s s' : Session} {trace : Trace}

/-- Items whose lines can be told are listed before what follows them. -/
theorem listEach_append {line : α → Work String} {text : α → String} {as : List α}
    (h : ∀ a ∈ as, line a s = (s, .empty, .ok (text a))) (bs : List α) :
    listEach line (as ++ bs) s =
      ((listEach line bs s).1, (Trace.ofLines (as.map text)).append (listEach line bs s).2.1,
        (listEach line bs s).2.2) := by
  induction as with
  | nil => exact congrArg (fun t => (_, t, _)) (Trace.empty_append _).symm
  | cons a as ih =>
    obtain ⟨first, others⟩ := List.forall_mem_cons.1 h
    rw [List.cons_append, listEach, bind_of_ok (by rw [first]), first]
    rw [bind_of_ok (a := ()) rfl, show (list (text a) s).1 = s from rfl, ih others]
    simp only [List.map_cons, Trace.ofLines_cons, Trace.append_assoc, Trace.empty_append]
    rfl

theorem listEach_of_ok {line : α → Work String} {text : α → String} {as : List α}
    (h : ∀ a ∈ as, line a s = (s, .empty, .ok (text a))) :
    listEach line as s = (s, Trace.ofLines (as.map text), .ok ()) := by
  have listed := listEach_append h []
  rw [List.append_nil] at listed
  rw [listed]
  exact congrArg (fun t => (s, t, Except.ok ())) (Trace.append_empty _)

/-- The tokens of a unit are listed, one on a line, with the one that ends the text. -/
theorem showTokens_of_lex {ts : Tokens} (read : lex source s = (s', trace, .ok ts)) :
    showTokens source s =
      (s'.forgotten, trace.append (Trace.ofLines (ts.toList.map Token.describe)), .ok ()) :=
  closing_of_ok read (listEach_of_ok fun _ _ => rfl)

theorem outline_of_shallow {e : Expr} (h : e.outline.depth ≤ depthLimit) (s : Session) :
    outline e s = (s, .empty, .ok e.outline.text) := by
  rw [outline, Expr.display?, if_pos h]
  rfl

theorem outline_of_deep {e : Expr} (h : ¬ e.outline.depth ≤ depthLimit) (s : Session) :
    outline e s = (s, .empty, .error .tooDeep) := by
  rw [outline, Expr.display?, if_neg h]
  rfl

/-- Outlines are told without writing anything, unless one of them has too many levels. -/
theorem outlines_eq (es : List Expr) (s : Session) :
    outlines es s = (s, .empty,
      if ∀ e ∈ es, e.outline.depth ≤ depthLimit then .ok (es.map fun e => e.outline.text)
      else .error .tooDeep) := by
  induction es with
  | nil => rfl
  | cons e es ih =>
    rw [outlines]
    simp only [List.forall_mem_cons]
    by_cases shallow : e.outline.depth ≤ depthLimit
    · rw [bind_of_ok (by rw [outline_of_shallow shallow]), outline_of_shallow shallow]
      by_cases others : ∀ e ∈ es, e.outline.depth ≤ depthLimit
      · rw [if_pos others] at ih
        rw [if_pos ⟨shallow, others⟩, bind_of_ok (by rw [ih]), ih]
        rfl
      · rw [if_neg others] at ih
        rw [if_neg fun all => others all.2, bind_of_error (by rw [ih]), ih]
        rfl
    · rw [bind_of_error (by rw [outline_of_deep shallow]), outline_of_deep shallow,
        if_neg fun all => shallow all.1]

/-- The outlines of the expressions of a unit are listed where none has too many levels. -/
theorem showTree_of_shallow {es : List Expr} (parsed : parse source s = (s', trace, .ok es))
    (shallow : ∀ e ∈ es, e.outline.depth ≤ depthLimit) :
    showTree source s =
      (s'.forgotten, trace.append (Trace.ofLines (es.map fun e => e.outline.text)), .ok ()) :=
  closing_of_ok parsed (listEach_of_ok fun e he => outline_of_shallow (shallow e he) s')

/-- The first outline that has too many levels ends the listing. -/
theorem showTree_of_deep {before after : List Expr} {e : Expr}
    (parsed : parse source s = (s', trace, .ok (before ++ e :: after)))
    (shallow : ∀ e ∈ before, e.outline.depth ≤ depthLimit)
    (deep : ¬ e.outline.depth ≤ depthLimit) :
    showTree source s =
      (s', trace.append (Trace.ofLines (before.map fun e => e.outline.text)),
        .error .tooDeep) := by
  refine closing_of_left parsed ?_
  rw [listEach_append fun e he => outline_of_shallow (shallow e he) s', listEach,
    bind_of_error (by rw [outline_of_deep deep]), outline_of_deep deep]
  exact congrArg (fun t => (s', t, Except.error Departure.tooDeep)) (Trace.append_empty _)

end Work

end Lisplet
