import Lisplet.Proofs.Numbers.Written
import Lisplet.Proofs.Outlines.Quoted
import Lisplet.Value

/-!
# Shown values are told apart

The first character of what is shown of a value tells its type, and truth from falsehood
(`Value.exists_text_eq`).  Numbers and strings are told apart among themselves by their digits and
by what stands between the quotes.  So a text is that of one value only (`Value.text_injective`); it
stays on one line (`Value.not_mem_text`).
-/

namespace Lisplet

theorem Number.exists_text_eq (x : Number) :
    ∃ c rest, x.text.toList = c :: rest ∧ (c.isDigit = true ∨ c ∈ ['-', 'i', 'n']) := by
  obtain ⟨c, rest, body, heads⟩ := x.exists_body_eq
  rw [text_eq, String.toList_ofList, body]
  cases x.isSigned with
  | true => exact ⟨'-', c :: rest, rfl, .inr (by decide)⟩
  | false =>
    refine ⟨c, rest, rfl, ?_⟩
    cases x with
    | finite => exact .inl heads
    | infinite | undefined => exact .inr (by simp [show c = _ from heads])

namespace Value

/-- The type of the values whose text starts with a character. -/
def typeOfHead (c : Char) : String :=
  if c = 'N' then "null"
  else if c = 'T' ∨ c = 'F' then "boolean"
  else if c = '\'' ∨ c = '"' then "string"
  else "number"

theorem exists_text_eq (v : Value) :
    ∃ c rest, v.text.toList = c :: rest ∧ typeOfHead c = v.typeName := by
  cases v with
  | null => exact ⟨'N', ['o', 'n', 'e'], rfl, rfl⟩
  | boolean b =>
    cases b with
    | true => exact ⟨'T', ['r', 'u', 'e'], rfl, rfl⟩
    | false => exact ⟨'F', ['a', 'l', 's', 'e'], rfl, rfl⟩
  | number x =>
    obtain ⟨c, rest, text, heads⟩ := x.exists_text_eq
    refine ⟨c, rest, text, ?_⟩
    have others : ∀ d ∈ ['N', 'T', 'F', '\'', '"'], c ≠ d := by
      rintro d mem rfl
      rcases heads with digit | mem'
      · have none : ∀ d ∈ ['N', 'T', 'F', '\'', '"'], d.isDigit = false := by simp
        rw [none c mem] at digit
        cases digit
      · have none : ∀ d ∈ ['N', 'T', 'F', '\'', '"'], d ∉ ['-', 'i', 'n'] := by simp
        exact none c mem mem'
    simp only [List.forall_mem_cons] at others
    simp [typeOfHead, others, typeName]
  | string s =>
    refine ⟨_, _, Text.toList_quoted s, ?_⟩
    rcases Text.quoteFor_eq_or s.toList with quote | quote
    · rw [quote]
      rfl
    · rw [quote]
      rfl

/-- A text of a value is that of no other value. -/
theorem text_injective : Function.Injective text := by
  intro v w same
  have types : v.typeName = w.typeName := by
    obtain ⟨c, rest, text, type⟩ := v.exists_text_eq
    obtain ⟨d, more, text', type'⟩ := w.exists_text_eq
    rw [same, text'] at text
    rw [← type, ← type', (List.cons.inj text).1]
  cases v <;> cases w
  case null.null => rfl
  case boolean.boolean b b' => cases b <;> cases b' <;> first | rfl | exact absurd same (by decide)
  case number.number => rw [Number.text_injective same]
  case string.string => rw [Text.quoted_injective same]
  all_goals simp [typeName] at types

/-- What is shown of a value stays on one line. -/
theorem not_mem_text (v : Value) : '\n' ∉ v.text.toList := by
  cases v with
  | null => decide
  | boolean b => cases b <;> decide
  | number x =>
    intro mem
    rcases x.mem_text mem with (digit | sign) | letter
    · exact absurd digit (by decide)
    · exact absurd sign (by decide)
    · exact absurd letter (by decide)
  | string s => exact (Text.visible_quoted s).not_mem (by decide)

end Value

end Lisplet
