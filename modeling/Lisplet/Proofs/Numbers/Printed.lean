import Lisplet.Eval.Evaluate
import Lisplet.Parse.Expression
import Lisplet.Proofs.Numbers.Leading

/-!
# Printed numbers

A number between `1e-4` and `1e16` is printed as digits around a point
(`Magnitude.IsPlain.exists_numeral_eq`), behind a minus sign where it has one.  The text is cut into
the sign and one numeral (`Segment.cuts_signed`), and its value is the number, down to the sign of a
zero (`display_reads_back`).
-/

namespace Lisplet

-- Powers are those of the naturals, with exponents marked as naturals, whatever else is in scope.
attribute [local instance (2000)] instPowNat

/-! ### The numbers that are printed without a power of ten -/

namespace Magnitude

variable {m m' : Magnitude}

/-- Zero, and what is at least `1e-4` and below `1e16`; these bounds are numbers too. -/
def IsPlain (m : Magnitude) : Prop :=
  m.units = 0 ∨ Number.le (.ofDecimal false ⟨1, -4⟩) (.finite false m) = true ∧
    Number.lt (.finite false m) (.ofDecimal false ⟨1, 16⟩) = true

theorem value_le_value : m.value ≤ m'.value ↔ m.units ≤ m'.units := by
  have onePos : (0 : ℚ) < one := by exact_mod_cast one_pos
  rw [value, value, div_le_div_iff_of_pos_right onePos, Nat.cast_le]

/-- The number nearest to `10 ^ -4` is not below it. -/
theorem exists_round?_least : ∃ w : Magnitude, (⟨1, -4⟩ : Decimal).round? = some w ∧
    (10 : ℚ) ^ (-4 : Int) ≤ w.value := by
  have below : nearestUnits (1 * one) (10 ^ (4 : Nat)) < limit := by decide +kernel
  have above : one ≤ 10 ^ (4 : Nat) * nearestUnits (1 * one) (10 ^ (4 : Nat)) := by decide +kernel
  have onePos : (0 : ℚ) < one := by exact_mod_cast one_pos
  have quotient (digits : Nat) :
      (⟨digits, -4⟩ : Decimal).round? = round? (digits * one) (10 ^ (4 : Nat)) :=
    if_neg (by decide : ¬ (0 : Int) ≤ -4)
  refine ⟨⟨_, representable_nearestUnits below⟩, ?_, ?_⟩
  · rw [quotient, round?, dif_pos below]
  · rw [value, le_div_iff₀ onePos, zpow_neg, inv_mul_le_iff₀ (by norm_num)]
    exact_mod_cast above

/-- The bounds hold for the powers of ten themselves: the number for the lower one is not below it,
and the upper one is a number. -/
theorem IsPlain.value_bounds (plain : m.IsPlain) (nonzero : m.units ≠ 0) :
    (10 : ℚ) ^ (-4 : Int) ≤ m.value ∧ m.value < 10 ^ (16 : Nat) := by
  obtain ⟨low, high⟩ := plain.resolve_left nonzero
  obtain ⟨least, leastReads, leastValue⟩ := exists_round?_least
  obtain ⟨bound, boundValue⟩ := exists_value_eq_pow (by decide : 16 ≤ 22)
  have boundReads : (⟨1, 16⟩ : Decimal).round? = some bound := by
    refine Decimal.round?_of_value ?_
    rw [boundValue, Decimal.value, Nat.cast_one, one_mul]
    rfl
  simp only [Number.le, Number.ofDecimal, leastReads, Number.position?, decide_eq_true_eq,
    Int.ofNat_le] at low
  simp only [Number.lt, Number.ofDecimal, boundReads, Number.position?, decide_eq_true_eq,
    Int.ofNat_lt] at high
  rw [← boundValue]
  exact ⟨le_trans leastValue (value_le_value.2 low), lt_of_not_ge (mt value_le_value.1 high.not_ge)⟩

/-- Such a magnitude is printed as digits around a point. -/
theorem IsPlain.exists_numeral_eq (plain : m.IsPlain) :
    ∃ whole fraction, Numeral.ofDecimal m.shortest = .positional whole fraction := by
  by_cases zero : m.units = 0
  · rw [shortest, if_pos zero]
    exact ⟨['0'], [], rfl⟩
  · obtain ⟨low, high⟩ := plain.value_bounds zero
    obtain ⟨low, high⟩ := shortest_bounds (by decide) low high
    exact Numeral.exists_positional low high

end Magnitude

/-! ### Reading a numeral -/

namespace Segment

variable {whole fraction : List Char}

/-- Digits around a point are one numeral. -/
theorem begins_numeral (ne : whole ≠ []) (first : AllDigits whole) (second : AllDigits fraction) :
    Begins (whole ++ Numeral.fractionText fraction)
      (lexeme .number (whole ++ Numeral.fractionText fraction)) [] := by
  cases fraction with
  | nil =>
    have numeral : Begins (whole ++ []) (lexeme .number whole) [] :=
      .integer ne ⟨first, by simp⟩ (by simp [GoesOnWithFraction])
    rw [List.append_nil] at numeral
    rwa [show Numeral.fractionText [] = [] from rfl, List.append_nil]
  | cons d ds =>
    have numeral : Begins (whole ++ '.' :: (d :: ds ++ []))
        (lexeme .number (whole ++ '.' :: d :: ds)) [] :=
      .decimal ne first (List.cons_ne_nil d ds) ⟨second, by simp⟩
    rwa [List.append_nil] at numeral

/-- The numeral of a magnitude denotes it. -/
theorem literal_numeral {m : Magnitude}
    (layout : Numeral.ofDecimal m.shortest = .positional whole fraction) :
    literal .number (whole ++ Numeral.fractionText fraction) = .number (.finite false m) := by
  have wellFormed := Numeral.wellFormed_ofDecimal m.shortest
  have value := Numeral.value_decimal m.shortest
  rw [layout] at wellFormed value
  have reads := (Decimal.round?_eq_of_value value).trans m.round?_shortest
  rw [literal, numeralDecimal_append wellFormed.2.1, Number.ofDecimal]
  rw [Numeral.decimal] at reads
  rw [reads]

/-- The segments of a numeral behind its sign. -/
def signed (negative : Bool) (numeral : List Char) : List Segment :=
  (if negative then [lexeme .minus ['-']] else []) ++ [lexeme .number numeral]

/-- A sign and a numeral are cut into just these. -/
theorem cuts_signed {numeral : List Char} (begins : Begins numeral (lexeme .number numeral) [])
    (negative : Bool) :
    Cuts (Number.signText negative ++ numeral) (signed negative numeral) [] := by
  cases negative with
  | false => exact .cons begins .nil
  | true => exact .cons (.single (by decide)) (.cons begins .nil)

end Segment

/-! ### Reading a printed number -/

section Parse

variable {last : Token} {ends : last.kind = .eof}

/-- A number token alone is one expression, its literal. -/
theorem parse_number {t : Token} (number : t.kind = .number) :
    parse ⟨[t], last, ends⟩ = .ok [.literal t.literal] := by
  obtain ⟨kind, lexeme, literal, line, column⟩ := t
  cases number
  rfl

/-- A minus sign and a number token are one expression. -/
theorem parse_minus_number {sign t : Token} (minus : sign.kind = .minus)
    (number : t.kind = .number) :
    parse ⟨[sign, t], last, ends⟩ = .ok [.unary sign (.literal t.literal)] := by
  obtain ⟨kind, lexeme, literal, line, column⟩ := sign
  obtain ⟨kind', lexeme', literal', line', column'⟩ := t
  obtain ⟨kind'', lexeme'', literal'', line'', column''⟩ := last
  cases minus
  cases number
  cases ends
  rfl

/-- The tokens of a numeral behind its sign are one expression, and its value is the number that the
numeral denotes, with the other sign behind a minus sign. -/
theorem parse_signed {negative : Bool} {numeral : List Char} {x : Number}
    (literal : Segment.literal .number numeral = .number x) :
    ∃ e, parse ⟨Segment.tokens .start (Segment.signed negative numeral), last, ends⟩ = .ok [e] ∧
      ∀ room s, evaluate (room + 2) e s =
        ⟨"", s, .ok (.number (if negative then x.neg else x))⟩ := by
  cases negative with
  | false =>
    refine ⟨_, parse_number rfl, fun room s => ?_⟩
    rw [Token.placedAt, literal]
    rfl
  | true =>
    refine ⟨_, parse_minus_number rfl rfl, fun room s => ?_⟩
    rw [Token.placedAt, literal]
    rfl

end Parse

/-- The text of a number is that of its sign and its numeral. -/
theorem display_finite {negative : Bool} {m : Magnitude} {whole fraction : List Char}
    (layout : Numeral.ofDecimal m.shortest = .positional whole fraction) :
    (Value.number (.finite negative m)).display =
      String.ofList (Number.signText negative ++ (whole ++ Numeral.fractionText fraction)) := by
  rw [Value.display, Number.display, layout, Numeral.display]

/-- **A printed number reads back.**  What is printed of zero, or of a number that but for its sign
is at least `1e-4` and below `1e16`, is the text of one number token, behind a minus sign just when
the number has one.  It is one expression, whose value is the number itself. -/
theorem display_reads_back (negative : Bool) (m : Magnitude) (plain : m.IsPlain) :
    ∃ ts e, tokenize (Value.number (.finite negative m)).display = .ok ts ∧
      ts.ahead.map Token.kind = (if negative then [.minus, .number] else [.number]) ∧
      parse ts = .ok [e] ∧
      ∀ room s, evaluate (room + 2) e s = ⟨"", s, .ok (.number (.finite negative m))⟩ := by
  obtain ⟨whole, fraction, layout⟩ := plain.exists_numeral_eq
  have wellFormed := Numeral.wellFormed_ofDecimal m.shortest
  rw [layout] at wellFormed
  obtain ⟨ne, first, second⟩ := wellFormed
  have cuts : Segment.Cuts (Value.number (.finite negative m)).display.toList
      (Segment.signed negative (whole ++ Numeral.fractionText fraction)) [] := by
    rw [display_finite layout, String.toList_ofList]
    exact Segment.cuts_signed (Segment.begins_numeral ne first second) negative
  obtain ⟨e, parsed, value⟩ := parse_signed (Segment.literal_numeral layout)
  refine ⟨_, e, tokenize_of_closed cuts, ?_, parsed, ?_⟩
  · cases negative <;> rfl
  · cases negative <;> exact value

/-- Minus one half is printed and read back. -/
theorem display_reads_back_half : ∃ half : Magnitude,
    Number.ofDecimal true ⟨5, -1⟩ = .finite true half ∧ half.IsPlain ∧
    (Value.number (.finite true half)).display = "-0.5" ∧
    ∃ ts e, tokenize "-0.5" = .ok ts ∧ ts.ahead.map Token.kind = [.minus, .number] ∧
      parse ts = .ok [e] ∧
      ∀ room s, evaluate (room + 2) e s = ⟨"", s, .ok (.number (.finite true half))⟩ := by
  obtain ⟨half, reads⟩ : ∃ half, (⟨5, -1⟩ : Decimal).round? = some half :=
    Option.isSome_iff_exists.1 (by decide +kernel)
  have number (negative : Bool) : Number.ofDecimal negative ⟨5, -1⟩ = .finite negative half := by
    rw [Number.ofDecimal, reads]
  have plain : half.IsPlain := by
    rw [Magnitude.IsPlain, ← number]
    exact .inr (by decide +kernel)
  have text : (Value.number (.finite true half)).display = "-0.5" := by
    rw [← number]
    decide +kernel
  exact ⟨half, number true, plain, text, text ▸ display_reads_back true half plain⟩

end Lisplet
