import Lisplet.Lexer
import Lisplet.Proofs.Outlines.Quoted
import Lisplet.Text.Blank
import Lisplet.Text.Style

/-!
# Text without its control sequences

`Text.unstyled` deletes every control sequence of styled text.  A text decorates another one if it
comes to that one in whatever text it stands (`Text.Decorates`).  Styled text does so where the text
that is styled holds no escape characters (`Text.Clean.decorates_bold`), and so does what is put
together from texts that do.
-/

namespace Lisplet.Text

/-! ### Texts without escape characters -/

/-- The text has no character that begins control sequences. -/
def Clean (s : String) : Prop := '\x1b' ∉ s.toList

@[simp] theorem clean_append {s t : String} : Clean (s ++ t) ↔ Clean s ∧ Clean t := by
  simp [Clean]

@[simp] theorem clean_ofList {cs : List Char} : Clean (String.ofList cs) ↔ '\x1b' ∉ cs := by
  simp [Clean]

/-- A literal is clean if its characters are. -/
theorem Clean.ofList {cs : List Char} (h : cs.contains '\x1b' = false) :
    Clean (String.ofList cs) := by
  simpa using h

theorem clean_empty : Clean "" := .ofList rfl

/-- The escape character is a control character. -/
theorem Visible.clean {s : String} (h : Visible s.toList) : Clean s := h.not_mem (by decide)

@[simp] theorem clean_toString_nat (n : Nat) : Clean (toString n) := by
  have digits := (visible_toDigits (by decide : 1 < 10) n).not_mem (by decide : '\x1b'.toNat < 0x20)
  simpa [Clean] using digits

@[simp] theorem clean_toString_int (n : Int) : Clean (toString n) := by
  cases n with
  | ofNat n => exact clean_toString_nat n
  | negSucc n => exact clean_append.2 ⟨.ofList rfl, clean_toString_nat (n + 1)⟩

theorem clean_intercalate {separator : String} {ss : List String} (between : Clean separator)
    (h : ∀ s ∈ ss, Clean s) : Clean (separator.intercalate ss) := by
  induction ss with
  | nil => simp [Clean]
  | cons s ss ih =>
    obtain ⟨first, others⟩ := List.forall_mem_cons.1 h
    cases ss with
    | nil => simpa using first
    | cons t ss =>
      rw [String.intercalate_cons_cons]
      simp [first, between, ih others]

theorem clean_quoted (s : String) : Clean (quoted s) := (visible_quoted s).clean

/-! ### Control sequences -/

/-- What follows a control sequence with a number, if the text begins with one. -/
def afterSequence? : List Char → Option (List Char)
  | '\x1b' :: '[' :: cs =>
    match cs.dropWhile Char.isDigit with
    | 'm' :: rest => if cs.head?.any Char.isDigit then some rest else none
    | _ => none
  | _ => none

/-- A control sequence is an escape character, a bracket, a number and the letter m. -/
theorem afterSequence?_eq_some_iff {cs rest : List Char} : afterSequence? cs = some rest ↔
    ∃ code, code ≠ [] ∧ (∀ c ∈ code, c.isDigit = true) ∧ cs = controlSequence code ++ rest := by
  constructor
  · intro h
    unfold afterSequence? at h
    split at h
    · rename_i cs
      split at h
      · rename_i rest' dropped
        split at h
        · rename_i digit
          obtain rfl := Option.some.inj h
          refine ⟨cs.takeWhile Char.isDigit, ?_, List.all_eq_true.1 List.all_takeWhile, ?_⟩
          · cases cs with
            | nil => simp at digit
            | cons c cs =>
              have digit : c.isDigit = true := by simpa using digit
              simp [digit]
          · have whole := List.takeWhile_append_dropWhile (p := Char.isDigit) (l := cs)
            rw [dropped] at whole
            simp [controlSequence, whole]
        · cases h
      · cases h
    · cases h
  · rintro ⟨code, ne, digits, rfl⟩
    obtain ⟨c, cs, rfl⟩ := List.exists_cons_of_ne_nil ne
    have left : ((c :: cs) ++ 'm' :: rest).dropWhile Char.isDigit = 'm' :: rest := by
      rw [List.dropWhile_append_of_pos digits]
      simp
    simp only [controlSequence, List.cons_append, afterSequence?, List.append_assoc,
      List.nil_append] at *
    rw [left]
    simp [digits]

theorem length_lt_of_afterSequence? {cs rest : List Char} (h : afterSequence? cs = some rest) :
    rest.length < cs.length := by
  obtain ⟨code, -, -, rfl⟩ := afterSequence?_eq_some_iff.1 h
  simp [controlSequence]
  omega

/-- The text without its control sequences. -/
def unstyled : List Char → List Char
  | [] => []
  | c :: cs =>
    match _h : afterSequence? (c :: cs) with
    | some rest => unstyled rest
    | none => c :: unstyled cs
termination_by cs => cs.length
decreasing_by
  · exact length_lt_of_afterSequence? _h
  · exact Nat.lt_succ_self _

/-- A control sequence is deleted. -/
theorem unstyled_of_afterSequence? {cs rest : List Char} (h : afterSequence? cs = some rest) :
    unstyled cs = unstyled rest := by
  cases cs with
  | nil => cases h
  | cons c cs =>
    rw [unstyled]
    split
    · rename_i h'
      rw [Option.some.inj (h'.symm.trans h)]
    · rename_i h'
      rw [h] at h'
      cases h'

/-- A character that begins no control sequence stays. -/
theorem unstyled_cons {c : Char} (h : c ≠ '\x1b') (cs : List Char) :
    unstyled (c :: cs) = c :: unstyled cs := by
  rw [unstyled]
  split
  · rename_i found
    obtain ⟨code, -, -, sequence⟩ := afterSequence?_eq_some_iff.1 found
    exact absurd (List.cons.inj sequence).1 h
  · rfl

/-- A text without escape characters stays, whatever follows. -/
theorem unstyled_append {cs : List Char} (h : '\x1b' ∉ cs) (rest : List Char) :
    unstyled (cs ++ rest) = cs ++ unstyled rest := by
  induction cs with
  | nil => rfl
  | cons c cs ih =>
    simp only [List.mem_cons, not_or] at h
    rw [List.cons_append, unstyled_cons (Ne.symm h.1), ih h.2, List.cons_append]

/-! ### Decoration -/

/-- The first text comes to the second one where control sequences are deleted, whatever follows. -/
def Decorates (fancy plain : String) : Prop :=
  ∀ rest, unstyled (fancy.toList ++ rest) = plain.toList ++ unstyled rest

theorem Decorates.unstyled_eq {fancy plain : String} (h : Decorates fancy plain) :
    unstyled fancy.toList = plain.toList := by
  have whole := h []
  rwa [List.append_nil, unstyled, List.append_nil] at whole

theorem Clean.decorates {s : String} (h : Clean s) : Decorates s s := unstyled_append h

theorem Decorates.append {s t s' t' : String} (h : Decorates s t) (h' : Decorates s' t') :
    Decorates (s ++ s') (t ++ t') := by
  intro rest
  rw [String.toList_append, String.toList_append, List.append_assoc, List.append_assoc, h, h']

theorem decorates_controlSequence {code : List Char} (ne : code ≠ [])
    (digits : ∀ c ∈ code, c.isDigit = true) :
    Decorates (String.ofList (controlSequence code)) "" := by
  intro rest
  have after : afterSequence? (controlSequence code ++ rest) = some rest :=
    afterSequence?_eq_some_iff.2 ⟨code, ne, digits, rfl⟩
  rw [String.toList_ofList, unstyled_of_afterSequence? after]
  rfl

/-- Styled text decorates the same text where styles are switched off. -/
theorem Clean.decorates_bold {s : String} (h : Clean s) (styled : Bool) (colour : Option Colour) :
    Decorates (bold styled colour s) (bold false colour s) := by
  cases styled with
  | false => exact h.decorates
  | true =>
    have start : Decorates (String.ofList (controlSequence ['1'])) "" :=
      decorates_controlSequence (by simp) (List.forall_mem_singleton.2 rfl)
    have stop : Decorates (String.ofList (controlSequence ['0'])) "" :=
      decorates_controlSequence (by simp) (List.forall_mem_singleton.2 rfl)
    have coloured : Decorates
        (String.ofList ((colour.map fun c => controlSequence c.code).getD [])) "" := by
      cases colour with
      | none => exact clean_empty.decorates
      | some c =>
        have digits : ∀ d ∈ c.code, d.isDigit = true := by cases c <;> simp [Colour.code]
        exact decorates_controlSequence (by cases c <;> simp [Colour.code]) digits
    have whole := (((start.append coloured).append h.decorates).append stop)
    simpa [bold, String.append_assoc] using whole

end Lisplet.Text
