import Lisplet.Proofs.Numbers.Written

/-!
# The mark of whole numbers

The text of a number ends in `.0` just where its numeral has no digits behind the point: a shortest
decimal ends in no zero (`Magnitude.digits_shortest_mod`), so there is no other way to come by that
ending.  What a program prints of a finite number is its text with that ending cut off
(`Number.display_finite_eq`).
-/

namespace Lisplet

/-! ### Trailing zeros -/

/-- Where there is room for all zeros, none is left. -/
theorem Decimal.digits_dropZeros_mod {n : Nat} {d : Decimal} (room : d.digits < 10 ^ n) :
    (d.dropZeros n).digits = 0 ∨ (d.dropZeros n).digits % 10 ≠ 0 := by
  induction n generalizing d with
  | zero => exact .inl (Nat.lt_one_iff.1 room)
  | succ n ih =>
    rw [dropZeros]
    split
    · refine ih ?_
      rw [pow_succ] at room
      exact Nat.div_lt_of_lt_mul (by rwa [Nat.mul_comm])
    · rename_i ends
      by_cases zero : d.digits = 0
      · exact .inl zero
      · exact .inr fun last => ends ⟨zero, last⟩

theorem Magnitude.exists_shortest_eq {m : Magnitude} (nonzero : m.units ≠ 0) :
    ∃ d : Decimal, m.shortest = d.dropZeros (Nat.toDigits 10 d.digits).length := by
  unfold shortest
  rw [if_neg nonzero]
  exact ⟨_, rfl⟩

/-- The digits of a shortest decimal end in no zero, unless it is zero. -/
theorem Magnitude.digits_shortest_mod {m : Magnitude} (nonzero : m.units ≠ 0) :
    m.shortest.digits % 10 ≠ 0 := by
  obtain ⟨d, shortest⟩ := exists_shortest_eq nonzero
  have room : d.digits < 10 ^ (Nat.toDigits 10 d.digits).length :=
    (Nat.length_toDigits_le_iff (by decide) Nat.length_toDigits_pos).1 (Nat.le_refl _)
  have reduced := Decimal.digits_dropZeros_mod room
  rw [← shortest] at reduced
  refine reduced.resolve_left fun none => nonzero ?_
  -- A decimal without digits would read as zero.
  have same : m.shortest.value = zero.value := by
    rw [Decimal.value, none, value, show zero.units = 0 from rfl, Nat.cast_zero, zero_mul, zero_div]
  have reads := Decimal.round?_of_value same
  rw [m.round?_shortest] at reads
  exact congrArg units (Option.some.inj reads)

namespace Numeral

variable {whole fraction : List Char}

theorem mod_of_suffix_toDigits {n : Nat} (ends : ['0'] <:+ Nat.toDigits 10 n) : n % 10 = 0 := by
  obtain ⟨front, digits⟩ := ends
  rw [← @Nat.ofDigitChars_ten_toDigits n, ← digits, Nat.ofDigitChars_append]
  exact Nat.mul_mod_right 10 _

/-- A single digit behind the point is no zero, where the decimal has no zero to lose. -/
theorem ne_zero_of_ofDecimal {d : Decimal} (reduced : d.digits % 10 ≠ 0)
    (layout : ofDecimal d = positional whole fraction) : fraction ≠ ['0'] := by
  rintro rfl
  refine reduced (mod_of_suffix_toDigits ?_)
  have positive := @Nat.length_toDigits_pos 10 d.digits
  unfold ofDecimal at layout
  dsimp only at layout
  split at layout
  · split at layout
    · -- All of the digits stand behind the point, and there is just one.
      obtain ⟨-, behind⟩ := positional.inj layout
      have inside : Nat.toDigits 10 d.digits <:+ ['0'] := behind ▸ List.suffix_append _ _
      exact (inside.eq_of_length_le positive).symm ▸ List.suffix_refl _
    · obtain ⟨-, behind⟩ := positional.inj layout
      exact behind ▸ List.drop_suffix _ _
  · cases layout

/-! ### The ending of a text -/

theorem not_mem_of_allDigits {cs : List Char} (digits : AllDigits cs) : '.' ∉ cs := fun mem =>
  absurd (digits _ mem) (by decide)

/-- The text of a numeral with a point ends in a point and a zero only if these are all that stands
behind the digits. -/
theorem not_suffix_of_fraction {front : List Char} (digits : AllDigits fraction)
    (some : fraction ≠ []) (reduced : fraction ≠ ['0']) :
    ¬ ['.', '0'] <:+ front ++ '.' :: fraction := by
  intro ends
  have length := List.length_pos_iff.2 some
  have inside : ['.', '0'] <:+ '.' :: fraction :=
    List.suffix_of_suffix_length_le ends (List.suffix_append _ _) (Nat.succ_le_succ length)
  rcases List.suffix_cons_iff.1 inside with same | within
  · exact reduced (List.cons.inj same).2.symm
  · exact not_mem_of_allDigits digits (within.subset List.mem_cons_self)

theorem not_mem_exponentText (e : Int) : '.' ∉ exponentText e := by
  intro mem
  rcases List.mem_cons.1 mem with sign | digit
  · split at sign <;> exact absurd sign (by decide)
  · exact not_mem_of_allDigits ((AllDigits.zeros _).append (.toDigits _)) digit

/-- The text of a numeral with a power of ten does not end so at all. -/
theorem not_suffix_of_exponent {front : List Char} (e : Int) :
    ¬ ['.', '0'] <:+ front ++ 'e' :: exponentText e := by
  intro ends
  have long : 2 ≤ (exponentText e).length := by
    simp only [exponentText, List.length_cons, List.length_append, List.length_replicate]
    omega
  have behind : exponentText e <:+ front ++ 'e' :: exponentText e :=
    (List.suffix_cons _ _).trans (List.suffix_append _ _)
  have inside : ['.', '0'] <:+ exponentText e := List.suffix_of_suffix_length_le ends behind long
  exact not_mem_exponentText e (inside.subset List.mem_cons_self)

/-- The numeral of a decimal that has no zero to lose ends in a point and a zero, behind a text of
any kind, just where it is whole. -/
theorem text_cases {d : Decimal} (reduced : d.digits % 10 ≠ 0) (front : List Char) :
    (ofDecimal d).text = (ofDecimal d).display ++ ['.', '0'] ∨
      (ofDecimal d).text = (ofDecimal d).display ∧
        ¬ ['.', '0'] <:+ front ++ (ofDecimal d).text := by
  have wellFormed := wellFormed_ofDecimal d
  have ne {whole fraction : List Char} := @ne_zero_of_ofDecimal whole fraction d reduced
  generalize ofDecimal d = n at *
  rcases n with ⟨whole, _ | ⟨c, cs⟩⟩ | ⟨lead, fraction, e⟩
  · exact .inl (by simp [text, display, fractionText])
  · refine .inr ⟨rfl, ?_⟩
    rw [show text (positional whole (c :: cs)) = whole ++ '.' :: c :: cs from rfl,
      ← List.append_assoc]
    exact not_suffix_of_fraction wellFormed.2.2 (List.cons_ne_nil c cs) (ne rfl)
  · refine .inr ⟨rfl, ?_⟩
    rw [show text (scientific lead fraction e) =
      lead ++ fractionText fraction ++ 'e' :: exponentText e from rfl, ← List.append_assoc]
    exact not_suffix_of_exponent e

end Numeral

/-- What a program prints of a finite number is its text, without the mark of a whole number. -/
theorem Number.display_finite_eq (negative : Bool) (m : Magnitude) :
    let text := (finite negative m).text.toList
    (finite negative m).display.toList =
      if ['.', '0'] <:+ text then text.take (text.length - 2) else text := by
  have cases : (Numeral.ofDecimal m.shortest).text =
      (Numeral.ofDecimal m.shortest).display ++ ['.', '0'] ∨
      (Numeral.ofDecimal m.shortest).text = (Numeral.ofDecimal m.shortest).display ∧
        ¬ ['.', '0'] <:+ signText negative ++ (Numeral.ofDecimal m.shortest).text := by
    by_cases zero : m.units = 0
    · left
      rw [Magnitude.shortest, if_pos zero]
      rfl
    · exact Numeral.text_cases (Magnitude.digits_shortest_mod zero) (signText negative)
  simp only [text, display, String.toList_ofList]
  rcases cases with whole | ⟨same, ends⟩
  · rw [whole, ← List.append_assoc, if_pos (List.suffix_append _ _), List.length_append]
    exact List.take_left.symm
  · rw [if_neg ends, same]

end Lisplet
