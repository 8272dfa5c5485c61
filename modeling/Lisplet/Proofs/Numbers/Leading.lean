import Lisplet.Proofs.Numbers.Written
import Mathlib.Algebra.Order.Field.Power
import Mathlib.Data.Nat.Cast.Order.Field
import Mathlib.Tactic.Linarith

/-!
# The leading digit

`Magnitude.leadingExponent` is the power of ten at the leading digit of a magnitude
(`Magnitude.leadingExponent_bounds`).  The decimals of a magnitude that are tried for the shortest
lie between that power and the next one (`Magnitude.value_bounds_of_mem`).  So a magnitude between
`10 ^ -4` and `10 ^ 16` has a shortest decimal there (`Magnitude.shortest_bounds`), and that is laid
out without a power of ten (`Numeral.exists_positional`).
-/

namespace Lisplet

-- Powers are those of the naturals, with exponents marked as naturals, whatever else is in scope.
attribute [local instance (2000)] instPowNat

/-! ### Quotients and digits -/

section Quotients

variable {num den : Nat}

/-- A quotient of naturals lies within one above its whole part. -/
theorem div_bounds (pos : 0 < den) :
    ((num / den : Nat) : ℚ) ≤ (num : ℚ) / den ∧ (num : ℚ) / den < (num / den : Nat) + 1 := by
  have posQ : (0 : ℚ) < den := by exact_mod_cast pos
  refine ⟨Nat.cast_div_le, ?_⟩
  rw [div_lt_iff₀ posQ]
  exact_mod_cast Nat.lt_mul_of_div_lt (Nat.lt_succ_self _) pos

/-- A positive natural has a digit for each power of ten up to its own. -/
theorem toDigits_bounds {n : Nat} (pos : 0 < n) : ∃ k, (Nat.toDigits 10 n).length = k + 1 ∧
    10 ^ k ≤ n ∧ n < 10 ^ (k + 1) := by
  obtain ⟨k, length⟩ := Nat.exists_eq_succ_of_ne_zero
    (Nat.pos_iff_ne_zero.1 (@Nat.length_toDigits_pos 10 n))
  refine ⟨k, length, ?_, ?_⟩
  · cases k with
    | zero => exact pos
    | succ k =>
      have long : ¬ (Nat.toDigits 10 n).length ≤ k + 1 := by omega
      rw [Nat.length_toDigits_le_iff (by decide) (Nat.succ_pos k)] at long
      exact Nat.le_of_not_lt long
  · exact (Nat.length_toDigits_le_iff (by decide) (Nat.succ_pos k)).1 length.le

end Quotients

namespace Magnitude

variable {m : Magnitude}

/-- The leading exponent is that of the greatest power of ten that is not above the magnitude. -/
theorem leadingExponent_bounds (nonzero : m.units ≠ 0) :
    (10 : ℚ) ^ leadingExponent m.units ≤ m.value ∧
      m.value < 10 ^ (leadingExponent m.units + 1) := by
  have fine : one ≤ 10 ^ (330 : Nat) := by decide +kernel
  have pos : 0 < m.units * 10 ^ (330 : Nat) / one :=
    Nat.div_pos (Nat.le_trans fine (Nat.le_mul_of_pos_left _ (Nat.pos_of_ne_zero nonzero))) one_pos
  obtain ⟨k, length, low, high⟩ := toDigits_bounds pos
  have quotient := @div_bounds (m.units * 10 ^ (330 : Nat)) one one_pos
  have scaled (n : Nat) : ((m.units * 10 ^ n : Nat) : ℚ) / one = m.value * 10 ^ n := by
    rw [value, Nat.cast_mul, Nat.cast_pow, Nat.cast_ofNat]
    ring
  rw [scaled 330] at quotient
  have exponent : leadingExponent m.units = (k : Int) - (330 : Nat) := by
    rw [leadingExponent, length]
    omega
  have positive : (0 : ℚ) < 10 ^ (330 : Nat) := pow_pos (by norm_num) _
  have ten : (10 : ℚ) ≠ 0 := by norm_num
  constructor
  · rw [exponent, zpow_sub₀ ten, zpow_natCast, zpow_natCast, div_le_iff₀ positive]
    exact le_trans (by exact_mod_cast low) quotient.1
  · rw [exponent, sub_add_eq_add_sub, zpow_sub₀ ten, ← Nat.cast_succ, zpow_natCast, zpow_natCast,
      lt_div_iff₀ positive]
    exact lt_of_lt_of_le quotient.2 (by exact_mod_cast high)

theorem eq_of_mem_neighbours {num den digits : Nat} (mem : digits ∈ neighbours num den) :
    digits = num / den ∨ digits = num / den + 1 := by
  simp only [neighbours] at mem
  split at mem
  · exact List.mem_pair.1 mem
  · exact (List.mem_pair.1 mem).symm

/-- A decimal next to a magnitude has the whole part of it at its exponent, or the next digits. -/
theorem mem_decimalsAround {e : Int} {d : Decimal} (mem : d ∈ decimalsAround m.units e) :
    d.exponent = e ∧ ∃ q : Nat, (d.digits = q ∨ d.digits = q + 1) ∧
      (q : ℚ) ≤ m.value / 10 ^ e ∧ m.value / 10 ^ e < q + 1 := by
  obtain ⟨digits, next, rfl⟩ := List.mem_map.1 mem
  clear mem
  have around {num den : Nat} (pos : 0 < den) (quotient : (num : ℚ) / den = m.value / 10 ^ e)
      (mem : digits ∈ neighbours num den) : ∃ q : Nat, (digits = q ∨ digits = q + 1) ∧
        (q : ℚ) ≤ m.value / 10 ^ e ∧ m.value / 10 ^ e < q + 1 :=
    ⟨num / den, eq_of_mem_neighbours mem, quotient ▸ div_bounds pos⟩
  refine ⟨rfl, ?_⟩
  split at next
  · rename_i whole
    obtain ⟨n, rfl⟩ := Int.eq_ofNat_of_zero_le whole
    refine around (Nat.mul_pos one_pos (Nat.pow_pos (by decide))) ?_ next
    rw [value, zpow_natCast, Int.toNat_natCast, Nat.cast_mul, Nat.cast_pow, Nat.cast_ofNat, div_div]
  · rename_i fraction
    obtain ⟨n, rfl⟩ : ∃ n : Nat, e = -n := ⟨e.natAbs, by omega⟩
    refine around one_pos ?_ next
    rw [value, neg_neg, Int.toNat_natCast, zpow_neg, zpow_natCast, Nat.cast_mul, Nat.cast_pow,
      Nat.cast_ofNat, div_inv_eq_mul]
    ring

/-- A decimal next to a magnitude lies between the powers of ten around it, unless its exponent is
above the leading one. -/
theorem value_bounds_of_mem {n : Nat} {d : Decimal} (nonzero : m.units ≠ 0)
    (mem : d ∈ decimalsAround m.units (leadingExponent m.units - n)) :
    (10 : ℚ) ^ leadingExponent m.units ≤ d.value ∧
      d.value ≤ 10 ^ (leadingExponent m.units + 1) := by
  obtain ⟨low, high⟩ := leadingExponent_bounds nonzero
  obtain ⟨exponent, q, digits, below, above⟩ := mem_decimalsAround mem
  generalize leadingExponent m.units = lead at *
  have ten : (10 : ℚ) ≠ 0 := by norm_num
  have positive : (0 : ℚ) < 10 ^ (lead - n) := zpow_pos (by norm_num) _
  -- As counts of the last place, the powers of ten around the magnitude are whole.
  have lowest : (10 : ℚ) ^ lead = ((10 ^ n : Nat) : ℚ) * 10 ^ (lead - n) := by
    rw [Nat.cast_pow, Nat.cast_ofNat, ← zpow_natCast, ← zpow_add₀ ten, add_sub_cancel]
  have highest : (10 : ℚ) ^ (lead + 1) = ((10 ^ (n + 1) : Nat) : ℚ) * 10 ^ (lead - n) := by
    rw [Nat.cast_pow, Nat.cast_ofNat, ← zpow_natCast, ← zpow_add₀ ten]
    congr 1
    push_cast
    ring
  rw [lowest, ← le_div_iff₀ positive] at low
  rw [highest, ← div_lt_iff₀ positive] at high
  have atLeast : 10 ^ n ≤ q := by
    have : ((10 ^ n : Nat) : ℚ) < (q + 1 : Nat) := by
      rw [Nat.cast_succ]
      exact lt_of_le_of_lt low above
    exact Nat.lt_succ_iff.1 (by exact_mod_cast this)
  have atMost : q < 10 ^ (n + 1) := by
    have := lt_of_le_of_lt below high
    exact_mod_cast this
  have digitBounds : 10 ^ n ≤ d.digits ∧ d.digits ≤ 10 ^ (n + 1) := by omega
  rw [Decimal.value, exponent, lowest, highest]
  constructor
  · exact mul_le_mul_of_nonneg_right (by exact_mod_cast digitBounds.1) positive.le
  · exact mul_le_mul_of_nonneg_right (by exact_mod_cast digitBounds.2) positive.le

/-- The powers of ten up to the twenty-second are magnitudes. -/
theorem exists_value_eq_pow {e : Nat} (small : e ≤ 22) : ∃ w : Magnitude, w.value = 10 ^ e := by
  have bound : 5 ^ e < 2 ^ (53 : Nat) :=
    Nat.lt_of_le_of_lt (Nat.pow_le_pow_right (by decide) small) (by decide)
  have scaled (n : Nat) : ((5 ^ e * 2 ^ (n + e) : Nat) : ℚ) / ((2 ^ n : Nat) : ℚ) = 10 ^ e := by
    rw [show (10 : ℚ) = 5 * 2 by norm_num, mul_pow, pow_add]
    push_cast
    field_simp
  refine ⟨⟨5 ^ e * 2 ^ (1074 + e), 5 ^ e, 1074 + e, bound, by omega, rfl⟩, ?_⟩
  unfold value one
  exact scaled 1074

/-- The shortest decimal of a magnitude between two powers of ten is between them too.  It does not
reach the upper one, which would read as another magnitude. -/
theorem shortest_bounds {low : Int} {high : Nat} (small : high ≤ 22)
    (above : (10 : ℚ) ^ low ≤ m.value) (below : m.value < 10 ^ high) :
    (10 : ℚ) ^ low ≤ m.shortest.value ∧ m.shortest.value < 10 ^ high := by
  have nonzero : m.units ≠ 0 := by
    intro zero
    rw [value, zero, Nat.cast_zero, zero_div] at above
    exact absurd (zpow_pos (by norm_num) low) above.not_gt
  have ten : (1 : ℚ) < 10 := by norm_num
  obtain ⟨d, same, reads, rfl | ⟨n, -, mem⟩⟩ := m.shortest_eq nonzero
  · rw [same, value_exact]
    exact ⟨above, below⟩
  · obtain ⟨leadLow, leadHigh⟩ := leadingExponent_bounds nonzero
    obtain ⟨atLeast, atMost⟩ := value_bounds_of_mem nonzero mem
    have lowest : low < leadingExponent m.units + 1 :=
      (zpow_lt_zpow_iff_right₀ ten).1 (lt_of_le_of_lt above leadHigh)
    have highest : leadingExponent m.units < (high : Int) := by
      rw [← zpow_natCast] at below
      exact (zpow_lt_zpow_iff_right₀ ten).1 (lt_of_le_of_lt leadLow below)
    rw [same]
    constructor
    · exact le_trans (zpow_le_zpow_right₀ ten.le (Int.lt_add_one_iff.1 lowest)) atLeast
    · have le : d.value ≤ 10 ^ high := by
        rw [← zpow_natCast]
        exact le_trans atMost (zpow_le_zpow_right₀ ten.le highest)
      refine lt_of_le_of_ne le fun reached => ?_
      obtain ⟨w, pow⟩ := exists_value_eq_pow small
      have reads' := Decimal.round?_of_value (reached.trans pow.symm)
      cases reads.symm.trans reads'
      exact absurd pow below.ne

end Magnitude

/-! ### The layout -/

/-- A decimal between the powers of ten around positional numerals is laid out as one. -/
theorem Numeral.exists_positional {d : Decimal} (low : (10 : ℚ) ^ leastPositional ≤ d.value)
    (high : d.value < 10 ^ positionalLimit) :
    ∃ whole fraction, ofDecimal d = positional whole fraction := by
  have ten : (1 : ℚ) < 10 := by norm_num
  have positive : (0 : ℚ) < 10 ^ d.exponent := zpow_pos (by norm_num) _
  have digits : 0 < d.digits := by
    refine Nat.pos_of_ne_zero fun zero => ?_
    rw [Decimal.value, zero, Nat.cast_zero, zero_mul] at low
    exact absurd (zpow_pos (by norm_num) _) low.not_gt
  obtain ⟨k, length, atLeast, below⟩ := toDigits_bounds digits
  have lowest : leastPositional < (k + 1 : Nat) + d.exponent := by
    refine (zpow_lt_zpow_iff_right₀ ten).1 (lt_of_le_of_lt low ?_)
    rw [Decimal.value, zpow_add₀ (by norm_num), zpow_natCast]
    exact mul_lt_mul_of_pos_right (by exact_mod_cast below) positive
  have highest : k + d.exponent < positionalLimit := by
    refine (zpow_lt_zpow_iff_right₀ ten).1 (lt_of_le_of_lt ?_ high)
    rw [Decimal.value, zpow_add₀ (by norm_num), zpow_natCast]
    exact mul_le_mul_of_nonneg_right (by exact_mod_cast atLeast) positive.le
  rw [← length] at lowest
  rw [ofDecimal, if_pos ⟨lowest, by omega⟩]
  split
  · exact ⟨_, _, rfl⟩
  · exact ⟨_, _, rfl⟩

end Lisplet
