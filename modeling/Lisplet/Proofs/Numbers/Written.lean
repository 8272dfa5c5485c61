import Lisplet.Proofs.Numbers.Shortest
import Lisplet.Proofs.Segmentation.Cut

/-!
# Written numbers

The layout of a decimal around the point keeps its value (`Numeral.value_decimal`), and what is
written of a numeral can be read: its digits, the place of the point and the power of ten
(`Numeral.value_ofText`).  So a text of a number is that of no other number
(`Number.text_injective`).
-/

namespace Lisplet

/-! ### Digits -/

/-- Every character is a digit. -/
def AllDigits (cs : List Char) : Prop := ∀ c ∈ cs, c.isDigit = true

namespace AllDigits

variable {cs ds : List Char}

theorem toDigits (n : Nat) : AllDigits (Nat.toDigits 10 n) := fun _ mem =>
  Nat.isDigit_of_mem_toDigits (by decide) (by decide) mem

theorem zeros (n : Nat) : AllDigits (List.replicate n '0') := fun c mem => by
  rw [List.eq_of_mem_replicate mem]
  decide

theorem append (first : AllDigits cs) (second : AllDigits ds) : AllDigits (cs ++ ds) :=
  fun c mem => (List.mem_append.1 mem).elim (first c) (second c)

theorem take (digits : AllDigits cs) (n : Nat) : AllDigits (cs.take n) := fun c mem =>
  digits c (List.mem_of_mem_take mem)

theorem drop (digits : AllDigits cs) (n : Nat) : AllDigits (cs.drop n) := fun c mem =>
  digits c (List.mem_of_mem_drop mem)

end AllDigits

/-! ### Numerals -/

namespace Numeral

/-- The decimal that a numeral lays out. -/
def decimal : Numeral → Decimal
  | positional whole fraction =>
    ⟨Nat.ofDigitChars 10 (whole ++ fraction) 0, -(fraction.length : Int)⟩
  | scientific lead fraction e =>
    ⟨Nat.ofDigitChars 10 (lead ++ fraction) 0, e - fraction.length⟩

/-- The digits of a numeral are digits, and there is one before the point. -/
def WellFormed : Numeral → Prop
  | positional whole fraction => whole ≠ [] ∧ AllDigits whole ∧ AllDigits fraction
  | scientific lead fraction _ => lead ≠ [] ∧ AllDigits lead ∧ AllDigits fraction

theorem wellFormed_ofDecimal (d : Decimal) : (ofDecimal d).WellFormed := by
  have digits := AllDigits.toDigits d.digits
  have length := @Nat.length_toDigits_pos 10 d.digits
  unfold ofDecimal
  dsimp only
  split
  · split
    · exact ⟨List.cons_ne_nil _ _, .zeros 1, (AllDigits.zeros _).append digits⟩
    · refine ⟨fun nil => ?_, (digits.take _).append (.zeros _), digits.drop _⟩
      have := congrArg List.length nil
      simp only [List.length_append, List.length_take, List.length_replicate, List.length_nil]
        at this
      omega
  · refine ⟨fun nil => ?_, digits.take _, digits.drop _⟩
    have := congrArg List.length nil
    simp only [List.length_take, List.length_nil] at this
    omega

section Layout

variable {digits : List Char} {n : Nat}

/-- Zeros in front of the digits count for nothing. -/
theorem decimal_of_zeros (read : Nat.ofDigitChars 10 digits 0 = n) (zeros : Nat) :
    (positional ['0'] (List.replicate zeros '0' ++ digits)).decimal =
      ⟨n, -(zeros + digits.length : Nat)⟩ := by
  rw [decimal, Nat.ofDigitChars_append, Nat.ofDigitChars_append,
    show Nat.ofDigitChars 10 ['0'] 0 = 0 by rfl, Nat.ofDigitChars_replicate_zero, Nat.mul_zero,
    read, List.length_append, List.length_replicate]

/-- The point stands among the digits or right behind them. -/
theorem decimal_of_split (read : Nat.ofDigitChars 10 digits 0 = n) {places : Nat}
    (le : places ≤ digits.length) :
    (positional (digits.take places) (digits.drop places)).decimal =
      ⟨n, (places : Int) - digits.length⟩ := by
  rw [decimal, List.take_append_drop, read, List.length_drop, Nat.cast_sub le, neg_sub]

/-- Zeros fill up the places between the digits and the point. -/
theorem value_decimal_of_fill (read : Nat.ofDigitChars 10 digits 0 = n) (zeros : Nat) :
    (positional (digits ++ List.replicate zeros '0') []).decimal.value =
      (⟨n, zeros⟩ : Decimal).value := by
  rw [decimal, List.append_nil, Nat.ofDigitChars_append, read, Nat.ofDigitChars_replicate_zero]
  simp only [Decimal.value]
  push_cast
  simp [mul_comm]

end Layout

/-- The layout of a decimal keeps its value. -/
theorem value_decimal (d : Decimal) : (ofDecimal d).decimal.value = d.value := by
  have length := @Nat.length_toDigits_pos 10 d.digits
  have read := @Nat.ofDigitChars_ten_toDigits d.digits
  unfold ofDecimal
  generalize Nat.toDigits 10 d.digits = digits at length read
  dsimp only
  split
  · split
    · rw [decimal_of_zeros read]
      congr 2
      omega
    · obtain ⟨places, eq⟩ : ∃ n : Nat, (digits.length : Int) + d.exponent = n :=
        ⟨_, (Int.toNat_of_nonneg (by omega)).symm⟩
      rw [eq, Int.toNat_natCast]
      by_cases inside : places ≤ digits.length
      · rw [Nat.sub_eq_zero_of_le inside, List.replicate_zero, List.append_nil,
          decimal_of_split read inside, ← eq, add_sub_cancel_left]
      · obtain ⟨zeros, rfl⟩ := Nat.exists_eq_add_of_le (Nat.le_of_not_le inside)
        rw [List.take_of_length_le (by omega), List.drop_of_length_le (by omega),
          Nat.add_sub_cancel_left, value_decimal_of_fill read]
        congr 2
        omega
  · rw [decimal, List.take_append_drop, read, List.length_drop]
    congr 2
    omega

end Numeral

/-! ### Reading what is written -/

namespace Segment

/-- Digits, and a point and digits behind it, are read as they are laid out. -/
theorem numeralDecimal_append {whole fraction : List Char} (digits : AllDigits whole) :
    numeralDecimal (whole ++ Numeral.fractionText fraction) =
      ⟨Nat.ofDigitChars 10 (whole ++ fraction) 0, -(fraction.length : Int)⟩ := by
  cases fraction with
  | nil =>
    rw [show Numeral.fractionText [] = [] by rfl, List.append_nil]
    exact numeralDecimal_of_integer digits
  | cons d ds => exact numeralDecimal_of_decimal digits

end Segment

namespace Numeral

/-- The power of ten that stands behind its mark: a sign and digits. -/
def exponentOf : List Char → Int
  | [] => 0
  | sign :: digits =>
    (if sign = '-' then -1 else 1) * (Nat.ofDigitChars 10 digits 0 : Int)

theorem exponentOf_exponentText (e : Int) : exponentOf (exponentText e) = e := by
  unfold exponentText exponentOf
  dsimp only
  rw [Nat.ofDigitChars_append, Nat.ofDigitChars_replicate_zero, Nat.mul_zero,
    Nat.ofDigitChars_ten_toDigits]
  split
  · rw [if_pos rfl]
    omega
  · rw [if_neg (by decide)]
    omega

/-- The decimal that a text stands for: that of what stands before the mark of a power of ten, and
the power. -/
def ofText (cs : List Char) : Decimal :=
  let mantissa := cs.takeWhile (· != 'e')
  let d := Segment.numeralDecimal mantissa
  ⟨d.digits, d.exponent + exponentOf (cs.drop (mantissa.length + 1))⟩

theorem mem_fractionText {fraction : List Char} {c : Char} (mem : c ∈ fractionText fraction) :
    c = '.' ∨ c ∈ fraction := by
  unfold fractionText at mem
  split at mem
  · cases mem
  · exact List.mem_cons.1 mem

/-- There is no mark of a power of ten among digits and a point. -/
theorem ne_mark_of_mem {whole fraction : List Char} (first : AllDigits whole)
    (second : AllDigits fraction) {c : Char} (mem : c ∈ whole ++ fractionText fraction) :
    (c != 'e') = true := by
  rw [bne_iff_ne]
  rintro rfl
  rcases List.mem_append.1 mem with mem | mem
  · exact absurd (first _ mem) (by decide)
  · rcases mem_fractionText mem with point | mem
    · exact absurd point (by decide)
    · exact absurd (second _ mem) (by decide)

/-- The mark of a power of ten ends the digits and the point. -/
theorem takeWhile_mantissa {whole fraction : List Char} (first : AllDigits whole)
    (second : AllDigits fraction) (rest : List Char) :
    (whole ++ fractionText fraction ++ rest).takeWhile (· != 'e') =
      whole ++ fractionText fraction ++ rest.takeWhile (· != 'e') :=
  List.takeWhile_append_of_pos fun _ mem => ne_mark_of_mem first second mem

theorem ofText_positional {whole fraction : List Char} (first : AllDigits whole)
    (second : AllDigits fraction) :
    ofText (whole ++ fractionText fraction) = (positional whole fraction).decimal := by
  have all := takeWhile_mantissa first second []
  rw [List.append_nil, List.takeWhile_nil, List.append_nil] at all
  rw [ofText, all, List.drop_of_length_le (Nat.le_succ _), Segment.numeralDecimal_append first,
    exponentOf, Int.add_zero, decimal]

theorem ofText_scientific {lead fraction : List Char} (first : AllDigits lead)
    (second : AllDigits fraction) (e : Int) :
    ofText (lead ++ fractionText fraction ++ 'e' :: exponentText e) =
      (scientific lead fraction e).decimal := by
  have before := takeWhile_mantissa first second ('e' :: exponentText e)
  rw [List.takeWhile_cons_of_neg (by decide), List.append_nil] at before
  rw [ofText, before, List.drop_length_add_append, List.drop_one, List.tail_cons,
    exponentOf_exponentText, Segment.numeralDecimal_append first, decimal, Int.add_comm]
  rfl

/-- A final zero behind the point changes nothing. -/
theorem value_decimal_zero (whole : List Char) :
    (positional whole ['0']).decimal.value = (positional whole []).decimal.value := by
  simp only [decimal, Decimal.value, List.append_nil, List.length_cons, List.length_nil,
    Nat.ofDigitChars_append]
  rw [show ['0'] = List.replicate 1 '0' by rfl, Nat.ofDigitChars_replicate_zero]
  push_cast
  norm_num
  ring

/-- What is written of a numeral can be read. -/
theorem value_ofText {n : Numeral} (wellFormed : n.WellFormed) :
    (ofText n.text).value = n.decimal.value := by
  cases n with
  | positional whole fraction =>
    obtain ⟨-, first, second⟩ := wellFormed
    cases fraction with
    | nil =>
      rw [← value_decimal_zero]
      exact congrArg Decimal.value (ofText_positional first (.zeros 1))
    | cons d ds => exact congrArg Decimal.value (ofText_positional first second)
  | scientific lead fraction e =>
    obtain ⟨-, first, second⟩ := wellFormed
    exact congrArg Decimal.value (ofText_scientific first second e)

/-- The characters of written numerals. -/
def IsNumeralPart (c : Char) : Prop := c.isDigit = true ∨ c ∈ ['.', 'e', '+', '-']

theorem isNumeralPart_of_mem_fractionText {fraction : List Char} (digits : AllDigits fraction) :
    ∀ c ∈ fractionText fraction, IsNumeralPart c := fun c mem =>
  (mem_fractionText mem).elim (fun point => .inr (by simp [point])) fun mem => .inl (digits c mem)

theorem isNumeralPart_of_mem_exponentText (e : Int) : ∀ c ∈ exponentText e, IsNumeralPart c := by
  intro c mem
  rcases List.mem_cons.1 mem with sign | mem
  · rw [sign]
    split
    · exact .inr (by decide)
    · exact .inr (by decide)
  · exact .inl (((AllDigits.zeros _).append (.toDigits _)) c mem)

theorem isNumeralPart_of_mem_display {n : Numeral} (wellFormed : n.WellFormed) :
    ∀ c ∈ n.display, IsNumeralPart c := by
  intro c mem
  cases n with
  | positional whole fraction =>
    obtain ⟨-, first, second⟩ := wellFormed
    exact (List.mem_append.1 mem).elim (fun mem => .inl (first c mem))
      (isNumeralPart_of_mem_fractionText second c)
  | scientific lead fraction e =>
    obtain ⟨-, first, second⟩ := wellFormed
    rcases List.mem_append.1 mem with mem | mem
    · exact (List.mem_append.1 mem).elim (fun mem => .inl (first c mem))
        (isNumeralPart_of_mem_fractionText second c)
    · rcases List.mem_cons.1 mem with rfl | mem
      · exact .inr (by decide)
      · exact isNumeralPart_of_mem_exponentText e c mem

/-- The two texts of a numeral differ by the mark of a whole number. -/
theorem text_eq_or (n : Numeral) : n.text = n.display ∨ n.text = n.display ++ ['.', '0'] := by
  rcases n with ⟨whole, _ | ⟨d, ds⟩⟩ | _
  · exact .inr (by simp [text, display, fractionText])
  · exact .inl rfl
  · exact .inl rfl

theorem isNumeralPart_of_mem_text {n : Numeral} (wellFormed : n.WellFormed) :
    ∀ c ∈ n.text, IsNumeralPart c := by
  intro c mem
  rcases n.text_eq_or with text | text
  · exact isNumeralPart_of_mem_display wellFormed c (text ▸ mem)
  · rw [text] at mem
    rcases List.mem_append.1 mem with mem | mem
    · exact isNumeralPart_of_mem_display wellFormed c mem
    · rcases List.mem_pair.1 mem with rfl | rfl
      · exact .inr (by decide)
      · exact .inl (by decide)

/-- A numeral starts with a digit. -/
theorem exists_text_eq {n : Numeral} (wellFormed : n.WellFormed) :
    ∃ c rest, n.text = c :: rest ∧ c.isDigit = true := by
  have starts {cs : List Char} (nonempty : cs ≠ []) (digits : AllDigits cs) (rest : List Char) :
      ∃ c more, cs ++ rest = c :: more ∧ c.isDigit = true := by
    obtain ⟨c, more, rfl⟩ := List.exists_cons_of_ne_nil nonempty
    exact ⟨c, more ++ rest, rfl, digits c List.mem_cons_self⟩
  rcases n with ⟨whole, _ | ⟨d, ds⟩⟩ | ⟨lead, fraction, e⟩
  · exact starts wellFormed.1 wellFormed.2.1 _
  · exact starts wellFormed.1 wellFormed.2.1 _
  · rw [text, display, List.append_assoc]
    · exact starts wellFormed.1 wellFormed.2.1 _
    · exact fun _ => Numeral.noConfusion

end Numeral

/-! ### Numbers -/

/-- What is written of a magnitude is that of no other. -/
theorem Magnitude.eq_of_text_eq {m m' : Magnitude}
    (same : (Numeral.ofDecimal m.shortest).text = (Numeral.ofDecimal m'.shortest).text) :
    m = m' := by
  have reads (m : Magnitude) :
      (Numeral.ofText (Numeral.ofDecimal m.shortest).text).round? = some m := by
    rw [← m.round?_shortest]
    refine Decimal.round?_eq_of_value ?_
    rw [Numeral.value_ofText (Numeral.wellFormed_ofDecimal _), Numeral.value_decimal]
  have read := reads m
  rw [same, reads m'] at read
  exact (Option.some.inj read).symm

namespace Number

/-- Whether a number is written with a sign. -/
def isSigned : Number → Bool
  | finite s _ | infinite s => s
  | undefined => false

/-- What is written of a number behind its sign. -/
def body : Number → List Char
  | finite _ m => (Numeral.ofDecimal m.shortest).text
  | infinite _ => ['i', 'n', 'f']
  | undefined => ['n', 'a', 'n']

theorem text_eq (x : Number) : x.text = String.ofList (signText x.isSigned ++ x.body) := by
  cases x <;> rfl

/-- What a number starts with behind its sign. -/
def Heads (c : Char) : Number → Prop
  | finite .. => c.isDigit = true
  | infinite _ => c = 'i'
  | undefined => c = 'n'

theorem exists_body_eq (x : Number) : ∃ c rest, x.body = c :: rest ∧ x.Heads c := by
  cases x with
  | finite s m => exact Numeral.exists_text_eq (Numeral.wellFormed_ofDecimal _)
  | infinite s => exact ⟨_, _, rfl, rfl⟩
  | undefined => exact ⟨_, _, rfl, rfl⟩

theorem Heads.ne_sign {x : Number} {c : Char} (heads : x.Heads c) : c ≠ '-' := by
  rintro rfl
  cases x <;> exact absurd heads (by simp [Heads])

/-- The sign can be told from what is behind it. -/
theorem signText_append_inj {s t : Bool} {c d : Char} {cs ds : List Char} (noSign : c ≠ '-')
    (noSign' : d ≠ '-') (same : signText s ++ c :: cs = signText t ++ d :: ds) :
    s = t ∧ c = d ∧ cs = ds := by
  cases s <;> cases t
  · exact ⟨rfl, List.cons.inj same⟩
  · exact absurd (List.cons.inj same).1 noSign
  · exact absurd (List.cons.inj same).1.symm noSign'
  · exact ⟨rfl, List.cons.inj (List.cons.inj same).2⟩

/-- A text of a number is that of no other number. -/
theorem text_injective : Function.Injective text := by
  intro x y same
  obtain ⟨c, rest, xBody, heads⟩ := x.exists_body_eq
  obtain ⟨d, more, yBody, heads'⟩ := y.exists_body_eq
  rw [text_eq, text_eq, String.ofList_inj, xBody, yBody] at same
  obtain ⟨signs, rfl, rfl⟩ := signText_append_inj heads.ne_sign heads'.ne_sign same
  have bodies : x.body = y.body := xBody.trans yBody.symm
  -- The first character tells the finite numbers, the infinities and the undefined one apart.
  cases x <;> cases y
  case finite.finite =>
    cases signs
    rw [Magnitude.eq_of_text_eq bodies]
  case infinite.infinite =>
    cases signs
    rfl
  case undefined.undefined => rfl
  all_goals simp_all [Heads]

/-- The characters of written numbers. -/
theorem mem_text {x : Number} {c : Char} (mem : c ∈ x.text.toList) :
    Numeral.IsNumeralPart c ∨ c ∈ ['i', 'n', 'f', 'a'] := by
  rw [text_eq, String.toList_ofList, List.mem_append] at mem
  rcases mem with sign | mem
  · unfold signText at sign
    split at sign
    · exact .inl (.inr (by simp [List.mem_singleton.1 sign]))
    · cases sign
  · cases x with
    | finite s m =>
      exact .inl (Numeral.isNumeralPart_of_mem_text (Numeral.wellFormed_ofDecimal _) c mem)
    | infinite s =>
      have among : ['i', 'n', 'f'] ⊆ ['i', 'n', 'f', 'a'] := by decide
      exact .inr (among mem)
    | undefined =>
      have among : ['n', 'a', 'n'] ⊆ ['i', 'n', 'f', 'a'] := by decide
      exact .inr (among mem)

end Number

end Lisplet
