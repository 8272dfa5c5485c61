import Lisplet.Number.Word
import Lisplet.Proofs.Numbers.Shortest

/-!
# Words and numbers

Below the word of infinity, words without a sign and magnitudes have the same normal form: they are
less than `2 ^ 52`, or they have a significand of 53 bits and a shift (`Number.exists_word_eq`,
`Magnitude.exists_units_eq`).  So a number is the one that its word stands for
(`Number.ofWord_toWord`), and a word is that of the number it stands for, unless it is one of the
many words of the undefined number (`Number.toWord_ofWord`).
-/

namespace Lisplet

-- Powers are those of the naturals, with exponents marked as naturals, whatever else is in scope.
attribute [local instance (2000)] instPowNat

/-! ### Significands and shifts -/

/-- A significand has 53 bits, the leading one included. -/
def IsSignificand (n : Nat) : Prop := 2 ^ (52 : Nat) ≤ n ∧ n < 2 ^ (53 : Nat)

namespace Magnitude

variable {significand shift : Nat}

/-- A shifted significand is shifted by just that much. -/
theorem shiftOf_mul_two_pow (bits : IsSignificand significand) (shift : Nat) :
    shiftOf (significand * 2 ^ shift) = shift := by
  obtain ⟨low, high⟩ := bits
  have nonzero : significand * 2 ^ shift ≠ 0 :=
    Nat.mul_ne_zero (by omega) (Nat.two_pow_pos shift).ne'
  have log : (significand * 2 ^ shift).log2 = 52 + shift := by
    rw [Nat.log2_eq_iff nonzero, Nat.pow_add, Nat.add_right_comm, Nat.pow_add]
    exact ⟨Nat.mul_le_mul_right _ low, Nat.mul_lt_mul_of_pos_right high (Nat.two_pow_pos shift)⟩
  rw [shiftOf, log, Nat.add_sub_cancel_left]

/-- A magnitude that is not among the least ones is a shifted significand. -/
theorem exists_units_eq (m : Magnitude) (large : 2 ^ (52 : Nat) ≤ m.units) :
    ∃ significand shift, m.units = significand * 2 ^ shift ∧ IsSignificand significand ∧
      shift ≤ 2045 := by
  have nonzero : m.units ≠ 0 := by omega
  have log : m.units.log2 = 52 + shiftOf m.units := by
    have := (Nat.le_log2 nonzero).2 large
    unfold shiftOf
    omega
  have low := Nat.log2_self_le nonzero
  have high := lt_two_pow_shiftOf m.units
  have bound : m.units.log2 < 2098 := by
    have below := m.units_lt_limit
    unfold limit at below
    exact (Nat.log2_lt nonzero).2 below
  obtain ⟨significand, units⟩ := m.two_pow_shiftOf_dvd
  rw [Nat.mul_comm] at units
  rw [log, Nat.pow_add] at low
  rw [Nat.pow_add] at high
  generalize shiftOf m.units = shift at *
  have positive := Nat.two_pow_pos shift
  rw [units] at low high
  exact ⟨significand, shift, units, ⟨Nat.le_of_mul_le_mul_right low positive,
    Nat.lt_of_mul_lt_mul_right high⟩, by omega⟩

theorem representable_mul_two_pow (bits : IsSignificand significand) (le : shift ≤ 2045) :
    Representable (significand * 2 ^ shift) := ⟨significand, shift, bits.2, le, rfl⟩

end Magnitude

namespace Number

variable {rest significand shift : Nat}

/-! ### Words without a sign -/

/-- The count of units that a word stands for, but for its sign. -/
def wordUnits (rest : Nat) : Nat :=
  if rest / 2 ^ (52 : Nat) = 0 then rest % 2 ^ (52 : Nat)
  else (2 ^ (52 : Nat) + rest % 2 ^ (52 : Nat)) * 2 ^ (rest / 2 ^ (52 : Nat) - 1)

theorem wordUnits_of_lt (small : rest < 2 ^ (52 : Nat)) : wordUnits rest = rest := by
  rw [wordUnits, if_pos (Nat.div_eq_of_lt small), Nat.mod_eq_of_lt small]

theorem magnitudeWord_of_lt (small : rest < 2 ^ (52 : Nat)) : magnitudeWord rest = rest :=
  if_pos small

/-- The bits of a significand below its leading one stand below the exponent. -/
theorem wordUnits_add (bits : IsSignificand significand) (shift : Nat) :
    wordUnits (significand + shift * 2 ^ (52 : Nat)) = significand * 2 ^ shift := by
  obtain ⟨low, high⟩ := bits
  have exponent : (significand + shift * 2 ^ (52 : Nat)) / 2 ^ (52 : Nat) = shift + 1 := by omega
  have fraction : 2 ^ (52 : Nat) + (significand + shift * 2 ^ (52 : Nat)) % 2 ^ (52 : Nat) =
      significand := by omega
  rw [wordUnits, if_neg (by omega), exponent, fraction, Nat.add_sub_cancel]

theorem magnitudeWord_mul (bits : IsSignificand significand) (shift : Nat) :
    magnitudeWord (significand * 2 ^ shift) = significand + shift * 2 ^ (52 : Nat) := by
  have positive := Nat.two_pow_pos shift
  have large := Nat.le_trans bits.1 (Nat.le_mul_of_pos_right significand positive)
  rw [magnitudeWord, if_neg (by omega)]
  simp only [Magnitude.shiftOf_mul_two_pow bits]
  rw [Nat.mul_div_cancel _ positive]

/-- A word below infinity that is not among the least ones has a significand and a shift. -/
theorem exists_word_eq (large : 2 ^ (52 : Nat) ≤ rest) (below : rest < infinityWord) :
    ∃ significand shift, rest = significand + shift * 2 ^ (52 : Nat) ∧
      IsSignificand significand ∧ shift ≤ 2045 := by
  unfold infinityWord at below
  refine ⟨2 ^ (52 : Nat) + rest % 2 ^ (52 : Nat), rest / 2 ^ (52 : Nat) - 1, ?_, ⟨?_, ?_⟩, ?_⟩
  all_goals omega

theorem magnitudeWord_lt (m : Magnitude) : magnitudeWord m.units < infinityWord := by
  unfold infinityWord
  by_cases small : m.units < 2 ^ (52 : Nat)
  · rw [magnitudeWord_of_lt small]
    omega
  · obtain ⟨significand, shift, units, bits, le⟩ := m.exists_units_eq (Nat.le_of_not_lt small)
    rw [units, magnitudeWord_mul bits]
    have := bits.2
    omega

theorem wordUnits_magnitudeWord (m : Magnitude) : wordUnits (magnitudeWord m.units) = m.units := by
  by_cases small : m.units < 2 ^ (52 : Nat)
  · rw [magnitudeWord_of_lt small, wordUnits_of_lt small]
  · obtain ⟨significand, shift, units, bits, -⟩ := m.exists_units_eq (Nat.le_of_not_lt small)
    rw [units, magnitudeWord_mul bits, wordUnits_add bits]

/-- A word below infinity stands for a magnitude, and is its word. -/
theorem exists_magnitudeWord_eq (below : rest < infinityWord) :
    ∃ m : Magnitude, wordUnits rest = m.units ∧ magnitudeWord m.units = rest := by
  by_cases small : rest < 2 ^ (52 : Nat)
  · refine ⟨⟨rest, rest, 0, ?_, by decide, (Nat.mul_one rest).symm⟩, wordUnits_of_lt small,
      magnitudeWord_of_lt small⟩
    omega
  · obtain ⟨significand, shift, rfl, bits, le⟩ := exists_word_eq (Nat.le_of_not_lt small) below
    exact ⟨⟨_, Magnitude.representable_mul_two_pow bits le⟩, wordUnits_add bits shift,
      magnitudeWord_mul bits shift⟩

/-! ### Words with a sign -/

/-- The word with a sign bit and the rest behind it. -/
def signedWord (negative : Bool) (rest : Nat) : Nat := (if negative then signBit else 0) + rest

/-- The sign and the rest can be told from the word. -/
theorem ofWord_signedWord (negative : Bool) (below : rest < signBit) :
    ofWord (signedWord negative rest) =
      if rest = infinityWord then infinite negative
      else if infinityWord < rest then undefined
      else ofUnits negative (wordUnits rest) 1 := by
  have sign : decide (signedWord negative rest / signBit % 2 = 1) = negative := by
    unfold signedWord signBit at *
    cases negative
    · simp only [Bool.false_eq_true, if_false, decide_eq_false_iff_not]
      omega
    · simp only [if_true, decide_eq_true_eq]
      omega
  have behind : signedWord negative rest % signBit = rest := by
    unfold signedWord signBit at *
    split <;> omega
  unfold ofWord wordUnits
  simp only [sign, behind]
  split
  · rfl
  · split
    · rfl
    · split <;> rfl

theorem exists_signedWord_eq {word : Nat} (inside : word < 2 ^ (64 : Nat)) :
    ∃ negative rest, word = signedWord negative rest ∧ rest = word % signBit ∧ rest < signBit := by
  refine ⟨decide (signBit ≤ word), _, ?_, rfl, Nat.mod_lt _ (Nat.two_pow_pos 63)⟩
  unfold signedWord signBit
  simp only [decide_eq_true_eq]
  split <;> omega

theorem ofUnits_units (negative : Bool) (m : Magnitude) :
    ofUnits negative m.units 1 = finite negative m := by
  unfold ofUnits
  rw [m.round?_units]

theorem infinityWord_lt_signBit : infinityWord < signBit := by decide

theorem ofWord_of_magnitude (negative : Bool) (m : Magnitude) {rest : Nat}
    (units : wordUnits rest = m.units) (below : rest < infinityWord) :
    ofWord (signedWord negative rest) = finite negative m := by
  have inside : rest < signBit := Nat.lt_trans below infinityWord_lt_signBit
  have notInfinite : ¬ rest = infinityWord := Nat.ne_of_lt below
  have notAbove : ¬ infinityWord < rest := Nat.lt_asymm below
  rw [ofWord_signedWord negative inside, if_neg notInfinite, if_neg notAbove, units, ofUnits_units]

/-- A number is the one that its word stands for. -/
theorem ofWord_toWord (x : Number) : ofWord x.toWord = x := by
  cases x with
  | finite s m =>
    exact ofWord_of_magnitude s m (wordUnits_magnitudeWord m) (magnitudeWord_lt m)
  | infinite s => exact (ofWord_signedWord s infinityWord_lt_signBit).trans (if_pos rfl)
  | undefined => rfl

/-- A word of 64 bits is that of the number it stands for, unless it is above infinity. -/
theorem toWord_ofWord {word : Nat} (inside : word < 2 ^ (64 : Nat))
    (defined : word % signBit ≤ infinityWord) : (ofWord word).toWord = word := by
  obtain ⟨negative, rest, rfl, behind, lt⟩ := exists_signedWord_eq inside
  rw [← behind] at defined
  rcases Nat.lt_or_eq_of_le defined with below | rfl
  · obtain ⟨m, units, word⟩ := exists_magnitudeWord_eq below
    rw [ofWord_of_magnitude negative m units below]
    exact congrArg (signedWord negative) word
  · rw [ofWord_signedWord negative lt, if_pos rfl]
    rfl

/-- The words above infinity, of either sign, stand for the undefined number. -/
theorem ofWord_eq_undefined {word : Nat} (inside : word < 2 ^ (64 : Nat))
    (above : infinityWord < word % signBit) : ofWord word = undefined := by
  obtain ⟨negative, rest, rfl, behind, lt⟩ := exists_signedWord_eq inside
  rw [← behind] at above
  rw [ofWord_signedWord negative lt, if_neg (Nat.ne_of_gt above), if_pos above]

theorem toWord_lt (x : Number) : x.toWord < 2 ^ (64 : Nat) := by
  have bound {rest : Nat} (negative : Bool) (below : rest < signBit) :
      signedWord negative rest < 2 ^ (64 : Nat) := by
    unfold signedWord signBit at *
    split <;> omega
  cases x with
  | finite s m => exact bound s (Nat.lt_trans (magnitudeWord_lt m) infinityWord_lt_signBit)
  | infinite s => exact bound s infinityWord_lt_signBit
  | undefined => decide

end Number

end Lisplet
