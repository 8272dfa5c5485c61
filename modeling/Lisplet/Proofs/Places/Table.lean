import Lisplet.Proofs.Places.Positions

/-!
# The table of lines as offsets

The table keeps the closed lines as pairs of offsets into the source.  Cutting the source at these
gives the closed lines in order (`Lexer.map_extract_lineTable`), and each pair stands around a whole
line (`Lexer.isLineBetween_of_mem_lineTable`).  So a line is looked up by cutting it out of the
source where the table says (`Lexer.line_of_lineTable`).
-/

namespace Lisplet

open Text (IsLineBetween)

theorem Text.intercalate_lines (cs : List Char) : ['\n'].intercalate (lines cs) = cs := by
  rw [lines_eq_splitOn, List.intercalate_splitOn]

namespace Lexer

variable {l : Lexer} {s : Nat × Nat}

/-! ### Offsets of lines that follow each other -/

theorem map_extract_spans (before : List Char) (ls : List (List Char)) :
    (spans before.length ls).map
      (fun s => (before ++ ['\n'].intercalate ls).extract s.1 s.2) = ls := by
  induction ls generalizing before with
  | nil => rfl
  | cons l ls ih =>
    cases ls with
    | nil => simp [spans]
    | cons m ls =>
      -- The lines behind the first one follow it and its line feed.
      have behind := ih (before ++ l ++ ['\n'])
      rw [List.length_append, List.length_append, List.length_singleton] at behind
      rw [spans, List.map_cons, List.intercalate_cons_cons, ← List.append_assoc,
        ← List.append_assoc, behind]
      simp

theorem isLineBetween_of_mem_spans {before : List Char} {ls : List (List Char)}
    (begins : ∀ c ∈ before.getLast?, c = '\n') (within : ∀ l ∈ ls, '\n' ∉ l)
    (mem : s ∈ spans before.length ls) :
    let text := before ++ ['\n'].intercalate ls
    IsLineBetween (text.take s.1) (text.extract s.1 s.2) (text.drop s.2) := by
  induction ls generalizing before with
  | nil => cases mem
  | cons l ls ih =>
    obtain ⟨first, others⟩ := List.forall_mem_cons.1 within
    have line {after : List Char} (ends : ∀ c ∈ after.head?, c = '\n') :
        IsLineBetween before l after := ⟨begins, first, ends⟩
    cases ls with
    | nil =>
      obtain rfl := List.mem_singleton.1 mem
      simpa using line (by simp)
    | cons m ls =>
      rw [List.intercalate_cons_cons, ← List.append_assoc, ← List.append_assoc]
      rcases List.mem_cons.1 mem with rfl | mem
      · simpa using line (by simp)
      · refine ih (by simp) others ?_
        rwa [List.length_append, List.length_append, List.length_singleton]

/-! ### The table -/

theorem spans_ne_nil (start : Nat) {ls : List (List Char)} (h : ls ≠ []) :
    spans start ls ≠ [] := by
  cases ls with
  | nil => exact absurd rfl h
  | cons l ls => exact List.cons_ne_nil _ _

/-- Every entry of the table is one of the lines of the text, the last one any number of times. -/
theorem mem_spans_of_mem_lineTable (mem : s ∈ l.lineTable) :
    s ∈ spans 0 (Text.lines l.source) := by
  have ne := spans_ne_nil 0 (Text.lines_ne_nil l.source)
  unfold lineTable at mem
  split at mem
  · cases mem
  · rcases List.mem_append.1 mem with closed | repeated
    · exact List.dropLast_subset _ closed
    · obtain rfl := List.eq_of_mem_replicate repeated
      rw [List.getLastD_eq_getLast?, List.getLast?_eq_some_getLast ne]
      exact List.getLast_mem ne

/-- Cutting the source at the offsets of the table gives the closed lines. -/
theorem map_extract_lineTable (l : Lexer) :
    l.lineTable.map (fun s => l.source.extract s.1 s.2) = l.closedLines := by
  let cut (s : Nat × Nat) := l.source.extract s.1 s.2
  have lines : (spans 0 (Text.lines l.source)).map cut = Text.lines l.source := by
    have lines := map_extract_spans [] (Text.lines l.source)
    rwa [List.nil_append, Text.intercalate_lines] at lines
  have last : cut ((spans 0 (Text.lines l.source)).getLastD (0, 0)) = l.lastLine := by
    have last := (@List.getLastD_map _ _ cut (spans 0 (Text.lines l.source)) (0, 0)).symm
    rwa [lines] at last
  unfold lineTable closedLines
  split
  · rfl
  · rw [List.map_append, List.map_replicate, List.map_dropLast, lines]
    exact congrArg (fun line => _ ++ List.replicate _ line) last

/-- The offsets of an entry stand around a whole line of the source. -/
theorem isLineBetween_of_mem_lineTable (mem : s ∈ l.lineTable) :
    IsLineBetween (l.source.take s.1) (l.source.extract s.1 s.2) (l.source.drop s.2) := by
  have first : ∀ c ∈ ([] : List Char).getLast?, c = '\n' := by simp
  have line := isLineBetween_of_mem_spans first (fun _ => Text.not_mem_of_mem_lines)
    (mem_spans_of_mem_lineTable mem)
  rwa [List.nil_append, Text.intercalate_lines] at line

/-- A closed line is looked up by cutting the source at its offsets. -/
theorem line_of_lineTable {i : Nat} (entry : l.lineTable[i]? = some s) :
    l.line (i + 1) = .ok (l.source.extract s.1 s.2) := by
  have closed : l.closedLines[i]? = some (l.source.extract s.1 s.2) := by
    rw [← l.map_extract_lineTable, List.getElem?_map, entry, Option.map_some]
  have lt := (List.getElem?_eq_some_iff.1 closed).1
  have index : ((i : Int) + 1 - 1).toNat = i := by omega
  rw [line, if_neg (by omega), if_pos (by omega), index, closed]

end Lexer

end Lisplet
