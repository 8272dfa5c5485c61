import Lisplet.Expr.Outline
import Mathlib.Data.List.Basic

/-!
# Outlines are read back from their lines

A label neither holds a line feed nor ends with a comma or an opening bracket (`Outline.IsLabel`).
So the end of a line tells whether it is a node with children or without, and the separator behind a
node whether another one follows it.  No indentation is needed: whatever stands behind them, the
lines of an outline fix it (`Outline.lines_append_inj`), and the text of a listing fixes the
outlines in it (`Outline.listing_inj`).
-/

namespace Lisplet.Outline

/-! ### Labels -/

/-- A label stays on one line and does not end as the lines of inner nodes and separators do. -/
def IsLabel (label : String) : Prop :=
  '\n' ∉ label.toList ∧ ∀ c ∈ label.toList.getLast?, c ≠ ',' ∧ c ≠ '['

/-- What stands behind a node: a comma, if another one follows. -/
def IsSeparator (s : String) : Prop := s = "" ∨ s = ","

section Labels

variable {label label' separator separator' : String}

theorem IsLabel.ne_append (h : IsLabel label) (text : String) {c : Char}
    (ends : c = ',' ∨ c = '[') : label ≠ text ++ String.singleton c := by
  rintro rfl
  have last := h.2 c (by simp)
  rcases ends with rfl | rfl
  · exact last.1 rfl
  · exact last.2 rfl

/-- A label can be told from the separator behind it. -/
theorem IsLabel.append_inj (h : IsLabel label) (h' : IsLabel label') (hs : IsSeparator separator)
    (hs' : IsSeparator separator') (same : label ++ separator = label' ++ separator') :
    label = label' ∧ separator = separator' := by
  rcases hs with rfl | rfl <;> rcases hs' with rfl | rfl
  · exact ⟨by simpa using same, rfl⟩
  · exact absurd (by simpa using same) (h.ne_append label' (.inl rfl))
  · exact absurd (by simpa using same.symm) (h'.ne_append label (.inl rfl))
  · exact ⟨by simpa using same, rfl⟩

/-- The line of a node without children is none of a node that has some. -/
theorem IsLabel.append_ne (h : IsLabel label) (hs : IsSeparator separator) (other : String) :
    label ++ separator ≠ other ++ "(nodes=[" := by
  have split : other ++ "(nodes=[" = (other ++ "(nodes=") ++ String.singleton '[' := by
    rw [String.append_assoc]
    rfl
  rw [split]
  rcases hs with rfl | rfl
  · rw [String.append_empty]
    exact h.ne_append _ (.inr rfl)
  · intro same
    have last := congrArg (fun s => s.toList.getLast?) same
    simp at last

end Labels

/-! ### Lines -/

mutual

/-- The labels of all nodes. -/
def labels : Outline → List String
  | node label children => label :: labelsOfList children

/-- The labels of all nodes of several outlines. -/
def labelsOfList : List Outline → List String
  | [] => []
  | o :: os => o.labels ++ labelsOfList os

end

theorem labelsOfList_eq_flatMap (os : List Outline) : labelsOfList os = os.flatMap labels := by
  induction os with
  | nil => rfl
  | cons o os ih => rw [labelsOfList, ih, List.flatMap_cons]

theorem forall_mem_labels_node {p : String → Prop} {label : String} {children : List Outline} :
    (∀ l ∈ (node label children).labels, p l) ↔
      p label ∧ ∀ o ∈ children, ∀ l ∈ o.labels, p l := by
  rw [labels, labelsOfList_eq_flatMap, List.forall_mem_cons]
  refine and_congr_right' ⟨fun h o ho l hl => h l (List.mem_flatMap.2 ⟨o, ho, hl⟩),
    fun h l hl => ?_⟩
  obtain ⟨o, ho, hl⟩ := List.mem_flatMap.1 hl
  exact h o ho l hl

theorem lines_leaf (indent : Nat) (separator label : String) :
    (node label []).lines indent separator = [margin indent ++ (label ++ separator)] := by
  simp [lines, String.append_assoc]

theorem lines_inner (indent : Nat) (separator label : String) (o : Outline) (os : List Outline) :
    (node label (o :: os)).lines indent separator =
      (margin indent ++ (label ++ "(nodes=[")) ::
        (linesOfList (indent + 1) (o :: os) ++ [margin indent ++ ("])" ++ separator)]) := by
  simp [lines, String.append_assoc]

/-- Lines of the same indentation are the same behind it. -/
theorem cons_inj {indent : Nat} {line line' : String} {rest rest' : List String}
    (same : (margin indent ++ line) :: rest = (margin indent ++ line') :: rest') :
    line = line' ∧ rest = rest' := by
  obtain ⟨head, tail⟩ := List.cons.inj same
  exact ⟨by simpa using head, tail⟩

mutual

/-- The lines of an outline, whatever stands behind them, fix the outline and its separator. -/
theorem lines_append_inj {o o' : Outline} {separator separator' : String}
    {indent : Nat} {rest rest' : List String}
    (h : ∀ l ∈ o.labels, IsLabel l) (h' : ∀ l ∈ o'.labels, IsLabel l)
    (hs : IsSeparator separator) (hs' : IsSeparator separator')
    (same : o.lines indent separator ++ rest = o'.lines indent separator' ++ rest') :
    o = o' ∧ separator = separator' ∧ rest = rest' := by
  obtain ⟨label, children⟩ := o
  obtain ⟨label', children'⟩ := o'
  simp only [labels, List.forall_mem_cons] at h h'
  cases children with
  | nil =>
    cases children' with
    | nil =>
      rw [lines_leaf, lines_leaf] at same
      obtain ⟨line, rest⟩ := cons_inj same
      obtain ⟨rfl, separators⟩ := h.1.append_inj h'.1 hs hs' line
      exact ⟨rfl, separators, rest⟩
    | cons c' cs' =>
      rw [lines_leaf, lines_inner] at same
      exact absurd (cons_inj same).1 (h.1.append_ne hs _)
  | cons c cs =>
    cases children' with
    | nil =>
      rw [lines_leaf, lines_inner] at same
      exact absurd (cons_inj same).1.symm (h'.1.append_ne hs' _)
    | cons c' cs' =>
      rw [lines_inner, lines_inner, List.cons_append, List.cons_append, List.append_assoc,
        List.append_assoc] at same
      obtain ⟨line, inside⟩ := cons_inj same
      obtain ⟨children, closing⟩ := linesOfList_append_inj (List.cons_ne_nil c cs)
        (List.cons_ne_nil c' cs') h.2 h'.2 inside
      obtain ⟨line', rest⟩ := cons_inj closing
      refine ⟨?_, by simpa using line', rest⟩
      rw [children, show label = label' by simpa using line]

/-- The lines of children, whatever stands behind them, fix the children. -/
theorem linesOfList_append_inj {os os' : List Outline} {indent : Nat} {rest rest' : List String}
    (some : os ≠ []) (some' : os' ≠ []) (h : ∀ l ∈ labelsOfList os, IsLabel l)
    (h' : ∀ l ∈ labelsOfList os', IsLabel l)
    (same : linesOfList indent os ++ rest = linesOfList indent os' ++ rest') :
    os = os' ∧ rest = rest' := by
  cases os with
  | nil => exact absurd rfl some
  | cons o os =>
    cases os' with
    | nil => exact absurd rfl some'
    | cons o' os' =>
      rw [labelsOfList, List.forall_mem_append] at h h'
      -- The comma behind a child tells that another one follows.
      cases os with
      | nil =>
        cases os' with
        | nil =>
          obtain ⟨rfl, -, rest⟩ := lines_append_inj h.1 h'.1 (.inl rfl) (.inl rfl) same
          exact ⟨rfl, rest⟩
        | cons n' os' =>
          rw [linesOfList, linesOfList, List.append_assoc] at same
          obtain ⟨-, separators, -⟩ := lines_append_inj h.1 h'.1 (.inl rfl) (.inr rfl) same
          exact absurd separators (by decide)
      | cons n os =>
        cases os' with
        | nil =>
          rw [linesOfList, linesOfList, List.append_assoc] at same
          obtain ⟨-, separators, -⟩ := lines_append_inj h.1 h'.1 (.inr rfl) (.inl rfl) same
          exact absurd separators (by decide)
        | cons n' os' =>
          rw [linesOfList, linesOfList, List.append_assoc, List.append_assoc] at same
          obtain ⟨rfl, -, more⟩ := lines_append_inj h.1 h'.1 (.inr rfl) (.inr rfl) same
          obtain ⟨others, rest⟩ := linesOfList_append_inj (List.cons_ne_nil n os)
            (List.cons_ne_nil n' os') h.2 h'.2 more
          exact ⟨by rw [others], rest⟩

end

/-! ### Listings -/

theorem not_mem_margin (indent : Nat) : '\n' ∉ (margin indent).toList := by
  simp [margin]

theorem IsSeparator.not_mem {separator : String} (h : IsSeparator separator) :
    '\n' ∉ separator.toList := by
  rcases h with rfl | rfl <;> decide

mutual

/-- No line of an outline holds a line feed. -/
theorem not_mem_of_mem_lines {o : Outline} {indent : Nat} {separator : String}
    (h : ∀ l ∈ o.labels, IsLabel l) (hs : IsSeparator separator) :
    ∀ line ∈ o.lines indent separator, '\n' ∉ line.toList := by
  obtain ⟨label, children⟩ := o
  simp only [labels, List.forall_mem_cons] at h
  have around {text : String} (inside : '\n' ∉ text.toList) :
      '\n' ∉ (margin indent ++ text).toList := by
    simp [not_mem_margin, inside]
  cases children with
  | nil =>
    rw [lines_leaf, List.forall_mem_singleton]
    exact around (by simp [h.1.1, hs.not_mem])
  | cons c cs =>
    rw [lines_inner, List.forall_mem_cons, List.forall_mem_append, List.forall_mem_singleton]
    refine ⟨around (by simp [h.1.1]), not_mem_of_mem_linesOfList h.2, around ?_⟩
    simp [hs.not_mem]

/-- No line of several outlines holds a line feed. -/
theorem not_mem_of_mem_linesOfList {os : List Outline} {indent : Nat}
    (h : ∀ l ∈ labelsOfList os, IsLabel l) :
    ∀ line ∈ linesOfList indent os, '\n' ∉ line.toList := by
  cases os with
  | nil => exact fun _ mem => (List.not_mem_nil mem).elim
  | cons o os =>
    rw [labelsOfList, List.forall_mem_append] at h
    cases os with
    | nil => exact not_mem_of_mem_lines h.1 (.inl rfl)
    | cons n os =>
      rw [linesOfList, List.forall_mem_append]
      exact ⟨not_mem_of_mem_lines h.1 (.inr rfl), not_mem_of_mem_linesOfList h.2⟩

end

/-- The text that has these lines, each with its end. -/
def ofLines (lines : List String) : String := String.join (lines.map (· ++ "\n"))

theorem ofLines_cons (line : String) (lines : List String) :
    ofLines (line :: lines) = line ++ "\n" ++ ofLines lines := by
  simp [ofLines]

theorem ofLines_append (lines others : List String) :
    ofLines (lines ++ others) = ofLines lines ++ ofLines others := by
  simp [ofLines]

theorem toList_ofLines_cons (line : String) (lines : List String) :
    (ofLines (line :: lines)).toList = line.toList ++ '\n' :: (ofLines lines).toList := by
  simp [ofLines_cons]

/-- A text is split at its first line feed in one way. -/
theorem append_newline_inj {cs ds rest rest' : List Char} (h : '\n' ∉ cs) (h' : '\n' ∉ ds)
    (same : cs ++ '\n' :: rest = ds ++ '\n' :: rest') : cs = ds ∧ rest = rest' := by
  have shorter {cs ds mid rest rest' : List Char} (h : '\n' ∉ ds) (longer : ds = cs ++ mid)
      (behind : '\n' :: rest = mid ++ '\n' :: rest') : cs = ds ∧ rest = rest' := by
    cases mid with
    | nil => exact ⟨by simp [longer], (List.cons.inj behind).2⟩
    | cons c mid =>
      obtain ⟨rfl, -⟩ := List.cons.inj behind
      exact absurd (by simp [longer]) h
  rcases List.append_eq_append_iff.1 same with ⟨mid, longer, behind⟩ | ⟨mid, longer, behind⟩
  · exact shorter h' longer behind
  · obtain ⟨texts, rests⟩ := shorter h longer behind
    exact ⟨texts.symm, rests.symm⟩

/-- Lines without line feeds are told apart by their text. -/
theorem ofLines_inj {lines lines' : List String} (h : ∀ l ∈ lines, '\n' ∉ l.toList)
    (h' : ∀ l ∈ lines', '\n' ∉ l.toList) (same : ofLines lines = ofLines lines') :
    lines = lines' := by
  have chars := congrArg String.toList same
  clear same
  induction lines generalizing lines' with
  | nil =>
    cases lines' with
    | nil => rfl
    | cons l ls => simp [ofLines] at chars
  | cons l ls ih =>
    cases lines' with
    | nil => simp [ofLines] at chars
    | cons l' ls' =>
      obtain ⟨first, others⟩ := List.forall_mem_cons.1 h
      obtain ⟨first', others'⟩ := List.forall_mem_cons.1 h'
      rw [toList_ofLines_cons, toList_ofLines_cons] at chars
      obtain ⟨line, more⟩ := append_newline_inj first first' chars
      rw [String.toList_inj.1 line, ih others others' more]

theorem lines_ne_nil (o : Outline) (indent : Nat) (separator : String) :
    o.lines indent separator ≠ [] := by
  obtain ⟨label, _ | ⟨c, cs⟩⟩ := o
  · rw [lines_leaf]
    exact List.cons_ne_nil _ _
  · rw [lines_inner]
    exact List.cons_ne_nil _ _

theorem intercalate_append {lines : List String} (some : lines ≠ []) :
    "\n".intercalate lines ++ "\n" = ofLines lines := by
  induction lines with
  | nil => exact absurd rfl some
  | cons l ls ih =>
    cases ls with
    | nil => simp [ofLines]
    | cons l' ls =>
      rw [String.intercalate_cons_cons, ofLines_cons, ← ih (List.cons_ne_nil l' ls)]
      simp [String.append_assoc]

/-- The text of outlines, one after the other, has their lines. -/
theorem ofLines_text (os : List Outline) :
    ofLines (os.map text) = ofLines (os.flatMap (lines 0 "")) := by
  induction os with
  | nil => rfl
  | cons o os ih =>
    rw [List.map_cons, List.flatMap_cons, ofLines_cons, ofLines_append, ih, text,
      intercalate_append (o.lines_ne_nil 0 "")]

theorem flatMap_lines_inj {os os' : List Outline} (h : ∀ o ∈ os, ∀ l ∈ o.labels, IsLabel l)
    (h' : ∀ o ∈ os', ∀ l ∈ o.labels, IsLabel l)
    (same : os.flatMap (lines 0 "") = os'.flatMap (lines 0 "")) : os = os' := by
  induction os generalizing os' with
  | nil =>
    cases os' with
    | nil => rfl
    | cons o' os' => simp [lines_ne_nil] at same
  | cons o os ih =>
    cases os' with
    | nil => simp [lines_ne_nil] at same
    | cons o' os' =>
      obtain ⟨first, others⟩ := List.forall_mem_cons.1 h
      obtain ⟨first', others'⟩ := List.forall_mem_cons.1 h'
      rw [List.flatMap_cons, List.flatMap_cons] at same
      obtain ⟨rfl, -, rest⟩ := lines_append_inj first first' (.inl rfl) (.inl rfl) same
      rw [ih others others' rest]

/-- The text of a listing fixes the outlines in it. -/
theorem listing_inj {os os' : List Outline} (h : ∀ o ∈ os, ∀ l ∈ o.labels, IsLabel l)
    (h' : ∀ o ∈ os', ∀ l ∈ o.labels, IsLabel l)
    (same : ofLines (os.map text) = ofLines (os'.map text)) : os = os' := by
  have oneLine {os : List Outline} (h : ∀ o ∈ os, ∀ l ∈ o.labels, IsLabel l) :
      ∀ line ∈ os.flatMap (lines 0 ""), '\n' ∉ line.toList := by
    intro line mem
    obtain ⟨o, ho, mem⟩ := List.mem_flatMap.1 mem
    exact not_mem_of_mem_lines (h o ho) (.inl rfl) line mem
  rw [ofLines_text, ofLines_text] at same
  exact flatMap_lines_inj h h' (ofLines_inj (oneLine h) (oneLine h') same)

end Lisplet.Outline
