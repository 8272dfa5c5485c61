/-!
# Lines of a text

A text is split into lines at line feeds; a text with `k` line feeds has `k + 1` lines, and the last
one may be empty.
-/

namespace Lisplet.Text

/-- The pieces of a text between its line feeds. -/
def lines : List Char → List (List Char)
  | [] => [[]]
  | c :: cs =>
    if c = '\n' then [] :: lines cs
    else
      match lines cs with
      | [] => [[c]]
      | l :: ls => (c :: l) :: ls

/-- Line ends of other systems, a carriage return with or without a line feed, as line feeds. -/
def unifyLineEnds : List Char → List Char
  | [] => []
  | '\r' :: '\n' :: cs => '\n' :: unifyLineEnds cs
  | '\r' :: cs => '\n' :: unifyLineEnds cs
  | c :: cs => c :: unifyLineEnds cs

theorem lines_ne_nil (cs : List Char) : lines cs ≠ [] := by
  cases cs with
  | nil => simp [lines]
  | cons c cs =>
    simp only [lines]
    split
    · simp
    · split <;> simp

/-- A text has one line more than it has line feeds. -/
theorem length_lines (cs : List Char) : (lines cs).length = cs.count '\n' + 1 := by
  induction cs with
  | nil => rfl
  | cons c cs ih =>
    by_cases h : c = '\n'
    · simp [lines, h, ih]
    · cases hl : lines cs with
      | nil => exact absurd hl (lines_ne_nil cs)
      | cons l ls => simp [lines, h, hl, ← ih]

/-- The characters of the lines are those of the text but for the line feeds. -/
theorem mem_of_mem_lines {cs l : List Char} (h : l ∈ lines cs) {c : Char} (mem : c ∈ l) :
    c ∈ cs ∧ c ≠ '\n' := by
  induction cs generalizing l with
  | nil =>
    obtain rfl : l = [] := by simpa [lines] using h
    cases mem
  | cons d cs ih =>
    by_cases hd : d = '\n'
    · simp only [lines, if_pos hd, List.mem_cons] at h
      rcases h with rfl | h
      · cases mem
      · exact (ih h mem).imp_left (List.mem_cons_of_mem d)
    · cases hl : lines cs with
      | nil => exact absurd hl (lines_ne_nil cs)
      | cons m ms =>
        simp only [lines, if_neg hd, hl, List.mem_cons] at h
        rcases h with rfl | h
        · rcases List.mem_cons.1 mem with rfl | mem
          · exact ⟨List.mem_cons_self, hd⟩
          · exact (ih (by simp [hl]) mem).imp_left (List.mem_cons_of_mem d)
        · exact (ih (by simp [hl, h]) mem).imp_left (List.mem_cons_of_mem d)

/-- No line holds a line feed. -/
theorem not_mem_of_mem_lines {cs l : List Char} (h : l ∈ lines cs) : '\n' ∉ l :=
  fun mem => (mem_of_mem_lines h mem).2 rfl

end Lisplet.Text
