import Mathlib.Algebra.Order.Field.Rat
import Mathlib.Tactic.FieldSimp
import Mathlib.Tactic.NormNum
import Mathlib.Tactic.Positivity
import Mathlib.Tactic.Ring
import Lisplet.Number.Decimal

/-!
# Decimals that read back

Rounding depends on the value of a quotient alone, not on its terms (`Magnitude.round?_congr`), and
leaves a magnitude as it is (`Magnitude.round?_units`).  So decimals of the same value read as the
same magnitude, and the shortest decimal of a magnitude reads back as it
(`Magnitude.round?_shortest`).
-/

namespace Lisplet

-- Powers are those of the naturals, with exponents marked as naturals, whatever else is in scope.
attribute [local instance (2000)] instPowNat

/-! ### Rounding -/

namespace Magnitude

variable {k num den : Nat}

theorem nearest_mul_left (pos : 0 < k) (num den : Nat) :
    nearest (k * num) (k * den) = nearest num den := by
  have below : 2 * (k * (num % den)) < k * den ↔ 2 * (num % den) < den := by
    rw [Nat.mul_left_comm, Nat.mul_lt_mul_left pos]
  have above : k * den < 2 * (k * (num % den)) ↔ den < 2 * (num % den) := by
    rw [Nat.mul_left_comm, Nat.mul_lt_mul_left pos]
  simp only [nearest, Nat.mul_div_mul_left _ _ pos, Nat.mul_mod_mul_left, below, above]

theorem nearestUnits_mul_left (pos : 0 < k) (num den : Nat) :
    nearestUnits (k * num) (k * den) = nearestUnits num den := by
  simp only [nearestUnits, Nat.mul_div_mul_left _ _ pos, Nat.mul_assoc, nearest_mul_left pos]

theorem round?_mul_left (pos : 0 < k) (num den : Nat) :
    round? (k * num) (k * den) = round? num den := by
  simp only [round?, nearestUnits_mul_left pos]

/-- Rounding depends on the value of a quotient alone. -/
theorem round?_congr {num' den' : Nat} (pos : 0 < den) (pos' : 0 < den')
    (same : num * den' = num' * den) : round? num den = round? num' den' := by
  rw [← round?_mul_left pos' num den, ← round?_mul_left pos num' den', Nat.mul_comm den' num, same,
    Nat.mul_comm num' den, Nat.mul_comm den' den]

theorem nearest_mul_self (pos : 0 < den) (q : Nat) : nearest (q * den) den = q := by
  simp [nearest, Nat.mul_div_cancel q pos, pos]

/-- A magnitude is a multiple of the scale at which its significand has 53 bits. -/
theorem two_pow_shiftOf_dvd (m : Magnitude) : 2 ^ shiftOf m.units ∣ m.units := by
  obtain ⟨significand, shift, small, -, units⟩ := m.representable
  by_cases zero : m.units = 0
  · rw [zero]
    exact Nat.dvd_zero _
  · have bound : m.units < 2 ^ (53 + shift) := by
      rw [units, Nat.pow_add]
      exact Nat.mul_lt_mul_of_pos_right small (Nat.two_pow_pos shift)
    have log := (Nat.log2_lt zero).2 bound
    have le : shiftOf m.units ≤ shift := by
      unfold shiftOf
      omega
    refine Nat.dvd_trans (Nat.pow_dvd_pow 2 le) ?_
    rw [units]
    exact Nat.dvd_mul_left _ _

theorem units_lt_limit (m : Magnitude) : m.units < limit := by
  obtain ⟨significand, shift, small, le, units⟩ := m.representable
  have below (n : Nat) (le : 53 + shift ≤ n) : m.units < 2 ^ n := by
    refine Nat.lt_of_lt_of_le ?_ (Nat.pow_le_pow_right (by decide) le)
    rw [units, Nat.pow_add]
    exact Nat.mul_lt_mul_of_pos_right small (Nat.two_pow_pos shift)
  unfold limit
  exact below 2098 (by omega)

/-- A magnitude rounds to itself. -/
theorem round?_units (m : Magnitude) : round? m.units 1 = some m := by
  have self : nearestUnits m.units 1 = m.units := by
    obtain ⟨q, units⟩ := m.two_pow_shiftOf_dvd
    simp only [nearestUnits, Nat.div_one, Nat.one_mul]
    conv => lhs; arg 1; arg 1; rw [units, Nat.mul_comm]
    rw [nearest_mul_self (Nat.two_pow_pos _), Nat.mul_comm]
    exact units.symm
  simp only [round?, self, dif_pos m.units_lt_limit]

/-- The rational number that a magnitude stands for. -/
def value (m : Magnitude) : ℚ := m.units / (one : ℚ)

theorem one_pos : 0 < one := by
  unfold one
  exact Nat.two_pow_pos 1074

end Magnitude

/-! ### Decimals -/

namespace Decimal

/-- The rational number that a decimal stands for. -/
def value (d : Decimal) : ℚ := d.digits * 10 ^ d.exponent

/-- A decimal is read by rounding the quotient of units that it stands for. -/
theorem round?_eq (d : Decimal) : ∃ num den : Nat, 0 < den ∧
    d.round? = Magnitude.round? num den ∧ (num : ℚ) / den = d.value * Magnitude.one := by
  obtain ⟨digits, exponent⟩ := d
  by_cases whole : 0 ≤ exponent
  · refine ⟨_, 1, Nat.one_pos, if_pos whole, ?_⟩
    obtain ⟨e, rfl⟩ := Int.eq_ofNat_of_zero_le whole
    simp only [value, Int.toNat_natCast, zpow_natCast]
    push_cast
    ring
  · refine ⟨_, _, Nat.pow_pos (by decide), if_neg whole, ?_⟩
    obtain ⟨e, rfl⟩ : ∃ e : Nat, exponent = -e := ⟨exponent.natAbs, by omega⟩
    simp only [value, neg_neg, Int.toNat_natCast, zpow_neg, zpow_natCast]
    push_cast
    ring

/-- Decimals of the same value read as the same magnitude. -/
theorem round?_eq_of_value {d e : Decimal} (same : d.value = e.value) : d.round? = e.round? := by
  obtain ⟨num, den, pos, read, quotient⟩ := d.round?_eq
  obtain ⟨num', den', pos', read', quotient'⟩ := e.round?_eq
  rw [read, read']
  refine Magnitude.round?_congr pos pos' ?_
  have equal : (num : ℚ) / den = num' / den' := by rw [quotient, quotient', same]
  rw [div_eq_div_iff (by positivity) (by positivity)] at equal
  exact_mod_cast equal

/-- A decimal of the value of a magnitude reads as it. -/
theorem round?_of_value {d : Decimal} {m : Magnitude} (same : d.value = m.value) :
    d.round? = some m := by
  obtain ⟨num, den, pos, read, quotient⟩ := d.round?_eq
  rw [read, ← m.round?_units]
  refine Magnitude.round?_congr pos Nat.one_pos ?_
  have onePos : (0 : ℚ) < Magnitude.one := by exact_mod_cast Magnitude.one_pos
  have equal : (num : ℚ) / den = m.units := by
    rw [quotient, same, Magnitude.value, div_mul_cancel₀ _ onePos.ne']
  rw [div_eq_iff (by positivity)] at equal
  rw [Nat.mul_one]
  exact_mod_cast equal

theorem value_dropZeros (n : Nat) (d : Decimal) : (d.dropZeros n).value = d.value := by
  induction n generalizing d with
  | zero => rfl
  | succ n ih =>
    rw [dropZeros]
    split
    · rename_i zero
      obtain ⟨q, digits⟩ := Nat.dvd_of_mod_eq_zero zero.2
      rw [ih]
      simp only [value, digits, Nat.mul_div_cancel_left q (by decide : 0 < 10)]
      rw [zpow_add_one₀ (by norm_num)]
      push_cast
      ring
    · rfl

end Decimal

/-! ### The shortest decimal -/

namespace Magnitude

theorem value_exact (m : Magnitude) : m.exact.value = m.value := by
  have scaled (n : Nat) : ((m.units * 5 ^ n : Nat) : ℚ) * 10 ^ (-(n : Int)) =
      m.units / ((2 ^ n : Nat) : ℚ) := by
    rw [zpow_neg, zpow_natCast, show (10 : ℚ) = 2 * 5 by norm_num, mul_pow]
    push_cast
    field_simp
  unfold Decimal.value value exact one
  exact scaled 1074

/-- The shortest decimal is one of the two next to the magnitude with at most seventeen digits, or
the exact one, but for its trailing zeros. -/
theorem shortest_eq (m : Magnitude) (nonzero : m.units ≠ 0) :
    ∃ d : Decimal, m.shortest.value = d.value ∧ d.round? = some m ∧
      (d = m.exact ∨
        ∃ n : Nat, n < 17 ∧ d ∈ decimalsAround m.units (leadingExponent m.units - n)) := by
  unfold shortest
  rw [if_neg nonzero]
  dsimp only
  generalize search : List.find? _ _ = found
  refine ⟨_, Decimal.value_dropZeros _ _, ?_⟩
  cases found with
  | none => exact ⟨Decimal.round?_of_value m.value_exact, .inl rfl⟩
  | some d =>
    have reads := List.find?_some search
    have mem := List.mem_of_find?_eq_some search
    simp only [List.mem_flatMap, List.mem_range] at mem
    exact ⟨by simpa using reads, .inr mem⟩

/-- The shortest decimal reads back. -/
theorem round?_shortest (m : Magnitude) : m.shortest.round? = some m := by
  by_cases zero : m.units = 0
  · refine Decimal.round?_of_value ?_
    rw [shortest, if_pos zero, value, zero, Decimal.value, Nat.cast_zero, zero_mul, zero_div]
  · obtain ⟨d, same, reads, -⟩ := m.shortest_eq zero
    rw [Decimal.round?_eq_of_value same, reads]

end Magnitude

end Lisplet
