/-!
# Numbers with 53 significant bits

A finite number is a whole count of *units*, a unit being `2 ^ -1074`, with at most 53 significant
bits and below `2 ^ 2098` units (`Representable`), together with a sign that zero keeps too.  Beyond
the finite numbers there are two infinities and one undefined number.

Every operation computes its exact result as a quotient of naturals and rounds it once:
`Magnitude.round?` picks the nearest representable count, a tie going to the even neighbour.
-/

namespace Lisplet

-- Powers are those of the naturals, with exponents marked as naturals, whatever else is in scope.
attribute [local instance (2000)] instPowNat

/-- A count of units that the format can hold. -/
def Representable (units : Nat) : Prop :=
  ∃ significand shift : Nat,
    significand < 2 ^ (53 : Nat) ∧ shift ≤ 2045 ∧ units = significand * 2 ^ shift

theorem representable_zero : Representable 0 := ⟨0, 0, by decide, by decide, rfl⟩

/-- The size of a finite number, in units. -/
structure Magnitude where
  units : Nat
  representable : Representable units
deriving DecidableEq

namespace Magnitude

/-- How many units make one. -/
def one : Nat := 2 ^ (1074 : Nat)

/-- The first count of units that is too large for the format. -/
def limit : Nat := 2 ^ (2098 : Nat)

/-- The magnitude of both zeros. -/
def zero : Magnitude := ⟨0, representable_zero⟩

/-- A quotient rounded to the nearest natural, a tie to the even one. -/
def nearest (num den : Nat) : Nat :=
  let q := num / den
  let r := num % den
  if 2 * r < den then q else if den < 2 * r then q + 1 else q + q % 2

/-- How far the significand of `units` is shifted when 53 bits are kept. -/
def shiftOf (units : Nat) : Nat := units.log2 - 52

/-- The multiple of `2 ^ shift` nearest to `num / den`, where the shift keeps 53 significant bits.
-/
def nearestUnits (num den : Nat) : Nat :=
  let scale := 2 ^ shiftOf (num / den)
  nearest num (den * scale) * scale

theorem nearest_le (num den : Nat) : nearest num den ≤ num / den + 1 := by
  simp only [nearest]
  have := Nat.mod_lt (num / den) (by decide : 0 < 2)
  split
  · omega
  · split <;> omega

theorem le_nearest (num den : Nat) : num / den ≤ nearest num den := by
  simp only [nearest]
  split
  · omega
  · split <;> omega

theorem lt_two_pow_shiftOf (u : Nat) : u < 2 ^ (53 + shiftOf u) := by
  refine Nat.lt_of_lt_of_le Nat.lt_log2_self (Nat.pow_le_pow_right (by decide) ?_)
  unfold shiftOf
  omega

/-- The rounded significand never needs more than 53 bits, but for the carry to `2 ^ 53`. -/
theorem nearest_le_two_pow (num den : Nat) :
    nearest num (den * 2 ^ shiftOf (num / den)) ≤ 2 ^ (53 : Nat) := by
  have h : num / den / 2 ^ shiftOf (num / den) < 2 ^ (53 : Nat) := by
    rw [Nat.div_lt_iff_lt_mul (Nat.two_pow_pos _), ← Nat.pow_add]
    exact lt_two_pow_shiftOf _
  have := nearest_le num (den * 2 ^ shiftOf (num / den))
  rw [← Nat.div_div_eq_div_mul] at this
  omega

/-- Where the significand is shifted at all, it has 53 bits. -/
theorem two_pow_le_nearest {num den : Nat} (h : 0 < shiftOf (num / den)) :
    2 ^ (52 : Nat) ≤ nearest num (den * 2 ^ shiftOf (num / den)) := by
  refine Nat.le_trans ?_ (le_nearest _ _)
  rw [← Nat.div_div_eq_div_mul, Nat.le_div_iff_mul_le (Nat.two_pow_pos _), ← Nat.pow_add]
  have hl : 52 + shiftOf (num / den) = (num / den).log2 := by unfold shiftOf at *; omega
  rw [hl]
  refine Nat.log2_self_le fun hz => ?_
  rw [hz] at h
  exact absurd h (by decide)

theorem representable_nearestUnits {num den : Nat} (h : nearestUnits num den < limit) :
    Representable (nearestUnits num den) := by
  unfold nearestUnits at h ⊢
  simp only [] at h ⊢
  have hle := nearest_le_two_pow num den
  have hge := @two_pow_le_nearest num den
  revert h hle hge
  generalize nearest num (den * 2 ^ shiftOf (num / den)) = q
  generalize shiftOf (num / den) = k
  intro h hle hge
  have bound : ∀ {j : Nat}, 2 ^ (52 + j) ≤ q * 2 ^ k → j ≤ 2045 := by
    intro j hj
    have := (Nat.pow_lt_pow_iff_right (by decide : 1 < 2)).1 (Nat.lt_of_le_of_lt hj h)
    omega
  by_cases hq : q = 2 ^ (53 : Nat)
  · refine ⟨2 ^ (52 : Nat), k + 1, by decide, bound ?_, ?_⟩
    · rw [hq, ← Nat.pow_add]
      exact Nat.pow_le_pow_right (by decide) (by omega)
    · rw [hq, ← Nat.pow_add, ← Nat.pow_add]
      congr 1
      omega
  · refine ⟨q, k, by omega, ?_, rfl⟩
    by_cases hk : k = 0
    · omega
    · refine bound ?_
      rw [Nat.pow_add]
      exact Nat.mul_le_mul_right _ (hge (by omega))

/-- The representable count nearest to `num / den` units, unless that is beyond the largest. -/
def round? (num den : Nat) : Option Magnitude :=
  if h : nearestUnits num den < limit then some ⟨_, representable_nearestUnits h⟩ else none

end Magnitude

/-- A number of the language. -/
inductive Number where
  | finite (negative : Bool) (magnitude : Magnitude)
  | infinite (negative : Bool)
  | undefined
deriving DecidableEq

namespace Number

/-- `num / den` units with a sign, rounded; too large a quotient rounds to infinity. -/
def ofUnits (negative : Bool) (num den : Nat) : Number :=
  match Magnitude.round? num den with
  | some m => finite negative m
  | none => infinite negative

/-- A whole number with a sign, rounded. -/
def ofNat (negative : Bool) (n : Nat) : Number := ofUnits negative (n * Magnitude.one) 1

/-- The place of a number on the number line, counted in units: both zeros stand at the origin, the
infinities just outside the finite numbers, and the undefined number nowhere. -/
def position? : Number → Option Int
  | finite false m => some m.units
  | finite true m => some (-m.units)
  | infinite false => some Magnitude.limit
  | infinite true => some (-Magnitude.limit)
  | undefined => none

/-- Strict order by place; the undefined number compares with nothing. -/
def lt (a b : Number) : Bool :=
  match a.position?, b.position? with
  | some p, some q => decide (p < q)
  | _, _ => false

/-- Order by place; the undefined number compares with nothing. -/
def le (a b : Number) : Bool :=
  match a.position?, b.position? with
  | some p, some q => decide (p ≤ q)
  | _, _ => false

/-- Equality by place: the zeros are equal, and the undefined number equals itself. -/
def sameAs (a b : Number) : Bool := a.position? == b.position?

/-- Either zero. -/
def isZero (a : Number) : Bool := a.position? == some 0

end Number

end Lisplet
