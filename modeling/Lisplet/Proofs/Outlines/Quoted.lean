import Mathlib.Logic.Function.Basic
import Lisplet.Text.Quoted

/-!
# Quoted strings are told apart

A character between quotes can be read, whatever stands behind it (`Text.readChar_escape`).  So a
quoted text is that of no other string (`Text.quoted_injective`).  All its characters are printable,
line feeds are not among them.
-/

namespace Lisplet.Text

-- Powers are those of the naturals, with exponents marked as naturals, whatever else is in scope.
attribute [local instance (2000)] instPowNat

/-! ### Hexadecimal digits -/

/-- The value of a hexadecimal digit. -/
def hexDigit (c : Char) : Nat := if c.isDigit then c.toNat - 48 else c.toNat - 87

/-- The value of hexadecimal digits. -/
def ofHexDigits (cs : List Char) : Nat := cs.foldl (fun n c => 16 * n + hexDigit c) 0

theorem hexDigit_digitChar {n : Nat} (lt : n < 16) : hexDigit n.digitChar = n := by
  have all : ∀ n < 16, hexDigit n.digitChar = n := by decide
  exact all n lt

theorem ofHexDigits_append_singleton (cs : List Char) (c : Char) :
    ofHexDigits (cs ++ [c]) = 16 * ofHexDigits cs + hexDigit c := by
  simp [ofHexDigits]

theorem ofHexDigits_toDigits (n : Nat) : ofHexDigits (Nat.toDigits 16 n) = n := by
  induction n using Nat.strongRecOn with
  | ind n ih =>
    rw [Nat.toDigits_eq_if (by decide)]
    split
    · rename_i lt
      simp [ofHexDigits, hexDigit_digitChar lt]
    · rw [ofHexDigits_append_singleton, ih (n / 16) (Nat.div_lt_self (by omega) (by decide)),
        hexDigit_digitChar (Nat.mod_lt n (by decide)), Nat.div_add_mod]

theorem ofHexDigits_hexDigits (width n : Nat) : ofHexDigits (hexDigits width n) = n := by
  have zeros (k : Nat) (cs : List Char) :
      ofHexDigits (List.replicate k '0' ++ cs) = ofHexDigits cs := by
    induction k with
    | zero => rfl
    | succ k ih => exact ih
  rw [hexDigits, zeros, ofHexDigits_toDigits]

theorem length_hexDigits {width n : Nat} (pos : 0 < width) (lt : n < 16 ^ width) :
    (hexDigits width n).length = width := by
  have fits := (Nat.length_toDigits_le_iff (by decide) pos).2 lt
  simp only [hexDigits, List.length_append, List.length_replicate]
  omega

/-! ### Reading a quoted text -/

/-- The first character of a text between quotes, and what stands behind it. -/
def readChar : List Char → Char × List Char
  | '\\' :: 'n' :: cs => ('\n', cs)
  | '\\' :: 'r' :: cs => ('\r', cs)
  | '\\' :: 't' :: cs => ('\t', cs)
  | '\\' :: 'x' :: cs => (Char.ofNat (ofHexDigits (cs.take 2)), cs.drop 2)
  | '\\' :: 'u' :: cs => (Char.ofNat (ofHexDigits (cs.take 4)), cs.drop 4)
  | '\\' :: 'U' :: cs => (Char.ofNat (ofHexDigits (cs.take 8)), cs.drop 8)
  | '\\' :: c :: cs => (c, cs)
  | cs => (cs.headD '\\', cs.tail)

theorem readChar_escapeCode (c : Char) (rest : List Char) :
    readChar (escapeCode c ++ rest) = (c, rest) := by
  have read {width : Nat} (pos : 0 < width) (lt : c.toNat < 16 ^ width) :
      (Char.ofNat (ofHexDigits ((hexDigits width c.toNat ++ rest).take width)),
        (hexDigits width c.toNat ++ rest).drop width) = (c, rest) := by
    rw [List.take_left' (length_hexDigits pos lt), List.drop_left' (length_hexDigits pos lt),
      ofHexDigits_hexDigits, Char.ofNat_toNat]
  unfold escapeCode
  split
  · exact read (by decide) (by assumption)
  · split
    · exact read (by decide) (by assumption)
    · have bound : c.toNat < 16 ^ (8 : Nat) := by
        have valid := c.valid
        simp only [UInt32.isValidChar, Nat.isValidChar] at valid
        simp only [Char.toNat]
        omega
      exact read (by decide) bound

/-- A character between quotes can be read, whatever stands behind it. -/
theorem readChar_escape {quote : Char} (isQuote : quote = '\'' ∨ quote = '"') (c : Char)
    (rest : List Char) : readChar (escape quote c ++ rest) = (c, rest) := by
  unfold escape
  split
  · rename_i escaped
    rcases escaped with rfl | rfl
    · rcases isQuote with rfl | rfl <;> rfl
    · rfl
  split
  · rename_i newline
    rw [newline]
    rfl
  split
  · rename_i return_
    rw [return_]
    rfl
  split
  · rename_i tab
    rw [tab]
    rfl
  split
  · rename_i special _ _ _ _
    unfold readChar
    simp_all
  · exact readChar_escapeCode c rest

theorem escape_ne_nil (quote c : Char) : escape quote c ≠ [] := by
  unfold escape escapeCode
  split
  · simp
  split
  · simp
  split
  · simp
  split
  · simp
  split
  · simp
  split
  · simp
  split <;> simp

theorem flatMap_escape_injective {quote : Char} (isQuote : quote = '\'' ∨ quote = '"') :
    Function.Injective (List.flatMap (escape quote)) := by
  intro cs ds same
  induction cs generalizing ds with
  | nil =>
    cases ds with
    | nil => rfl
    | cons d ds => simp [escape_ne_nil] at same
  | cons c cs ih =>
    cases ds with
    | nil => simp [escape_ne_nil] at same
    | cons d ds =>
      rw [List.flatMap_cons, List.flatMap_cons] at same
      have read := congrArg readChar same
      rw [readChar_escape isQuote, readChar_escape isQuote, Prod.mk.injEq] at read
      rw [read.1, ih read.2]

theorem quoteFor_eq_or (cs : List Char) : quoteFor cs = '\'' ∨ quoteFor cs = '"' := by
  unfold quoteFor
  split
  · exact .inr rfl
  · exact .inl rfl

theorem toList_quoted (s : String) : (quoted s).toList =
    quoteFor s.toList ::
      (s.toList.flatMap (escape (quoteFor s.toList)) ++ [quoteFor s.toList]) := by
  rw [quoted, String.toList_ofList]

/-- A quoted text is that of no other string. -/
theorem quoted_injective : Function.Injective quoted := by
  intro s t same
  have lists := congrArg String.toList same
  rw [toList_quoted, toList_quoted] at lists
  obtain ⟨quotes, rest⟩ := List.cons.inj lists
  rw [quotes] at rest
  have bodies := List.append_cancel_right rest
  exact String.toList_inj.1 (flatMap_escape_injective (quoteFor_eq_or _) bodies)

/-! ### Control characters -/

/-- The text has no control characters, line feeds in particular. -/
def Visible (cs : List Char) : Prop := ∀ c ∈ cs, 0x20 ≤ c.toNat

instance (cs : List Char) : Decidable (Visible cs) := List.decidableBAll _ cs

theorem Visible.not_mem {cs : List Char} (h : Visible cs) {c : Char} (control : c.toNat < 0x20) :
    c ∉ cs := fun mem => Nat.not_le_of_lt control (h c mem)

theorem le_of_isPrintable {c : Char} (printable : isPrintable c = true) : 0x20 ≤ c.toNat := by
  by_contra below
  have first : (0x0, 0x1F) ∈ unprintableRanges := List.mem_cons_self
  have unprintable : unprintableRanges.contains c = true := by
    rw [Ranges.contains, List.any_eq_true]
    refine ⟨_, first, ?_⟩
    simp
    omega
  rw [isPrintable, unprintable] at printable
  cases printable

theorem visible_toDigits {b : Nat} (large : 1 < b) (n : Nat) : Visible (Nat.toDigits b n) := by
  have digit (k : Nat) : 0x20 ≤ k.digitChar.toNat := by
    by_cases lt : k < 16
    · have all : ∀ k < 16, 0x20 ≤ k.digitChar.toNat := by decide
      exact all k lt
    · rw [Nat.digitChar_eq_star.2 (Nat.le_of_not_lt lt)]
      decide
  induction n using Nat.strongRecOn with
  | ind n ih =>
    intro c mem
    rw [Nat.toDigits_eq_if large] at mem
    split at mem
    · rw [List.mem_singleton.1 mem]
      exact digit n
    · rcases List.mem_append.1 mem with mem | mem
      · exact ih (n / b) (Nat.div_lt_self (by omega) large) c mem
      · rw [List.mem_singleton.1 mem]
        exact digit _

theorem visible_escapeCode (k : Char) : Visible (escapeCode k) := by
  have code {mark : Char} (visible : 0x20 ≤ mark.toNat) (width : Nat) :
      Visible ('\\' :: mark :: hexDigits width k.toNat) := by
    refine List.forall_mem_cons.2 ⟨by decide, List.forall_mem_cons.2 ⟨visible, fun c mem => ?_⟩⟩
    rcases List.mem_append.1 mem with mem | mem
    · rw [List.eq_of_mem_replicate mem]
      decide
    · exact visible_toDigits (by decide) _ c mem
  unfold escapeCode
  split
  · exact code (by decide) 2
  split
  · exact code (by decide) 4
  · exact code (by decide) 8

theorem visible_escape {quote : Char} (isQuote : quote = '\'' ∨ quote = '"') (k : Char) :
    Visible (escape quote k) := by
  unfold escape
  split
  · rename_i escaped
    rcases escaped with rfl | rfl
    · rcases isQuote with rfl | rfl <;> decide
    · decide
  split
  · decide
  split
  · decide
  split
  · decide
  split
  · rename_i printable
    exact List.forall_mem_singleton.2 (le_of_isPrintable printable)
  · exact visible_escapeCode k

/-- Quoting escapes control characters. -/
theorem visible_quoted (s : String) : Visible (quoted s).toList := by
  have isQuote := quoteFor_eq_or s.toList
  have quote : 0x20 ≤ (quoteFor s.toList).toNat := by
    rcases isQuote with eq | eq <;> rw [eq] <;> decide
  intro c mem
  rw [toList_quoted, List.mem_cons, List.mem_append, List.mem_singleton, List.mem_flatMap] at mem
  rcases mem with rfl | ⟨k, -, mem⟩ | rfl
  · exact quote
  · exact visible_escape isQuote k c mem
  · exact quote

end Lisplet.Text
