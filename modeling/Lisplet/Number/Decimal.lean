import Lisplet.Number.Basic

/-!
# Decimals and numbers

A `Decimal` is a natural number times a power of ten.  `Number.ofDecimal` reads one as the nearest
number.  `Magnitude.shortest` goes back: it gives the decimal of fewest digits that reads back as
the same magnitude, among those the nearest one, and of two equally near the one with the even last
digit.
-/

namespace Lisplet

-- Powers are those of the naturals, with exponents marked as naturals, whatever else is in scope.
attribute [local instance (2000)] instPowNat

/-- `digits * 10 ^ exponent`. -/
structure Decimal where
  digits : Nat
  exponent : Int
deriving DecidableEq

namespace Decimal

/-- The magnitude nearest to a decimal, unless that is beyond the largest. -/
def round? (d : Decimal) : Option Magnitude :=
  if 0 ≤ d.exponent then
    Magnitude.round? (d.digits * 10 ^ d.exponent.toNat * Magnitude.one) 1
  else
    Magnitude.round? (d.digits * Magnitude.one) (10 ^ (-d.exponent).toNat)

/-- Moves up to `n` trailing zeros of the digits into the exponent. -/
def dropZeros : Nat → Decimal → Decimal
  | 0, d => d
  | n + 1, d =>
    if d.digits ≠ 0 ∧ d.digits % 10 = 0 then dropZeros n ⟨d.digits / 10, d.exponent + 1⟩ else d

end Decimal

/-- A decimal with a sign as a number; one that is too large becomes infinite. -/
def Number.ofDecimal (negative : Bool) (d : Decimal) : Number :=
  match d.round? with
  | some m => finite negative m
  | none => infinite negative

namespace Magnitude

/-- A quotient and the next natural, the nearer of the two first; at a tie the even one comes first.
-/
def neighbours (num den : Nat) : List Nat :=
  let q := num / den
  if nearest num den = q then [q, q + 1] else [q + 1, q]

/-- The two multiples of `10 ^ exponent` around a count of units, the nearer one first. -/
def decimalsAround (units : Nat) (exponent : Int) : List Decimal :=
  let digits :=
    if 0 ≤ exponent then neighbours units (one * 10 ^ exponent.toNat)
    else neighbours (units * 10 ^ (-exponent).toNat) one
  digits.map fun d => ⟨d, exponent⟩

/-- The power of ten at the leading digit of a count of units. -/
def leadingExponent (units : Nat) : Int :=
  ((Nat.toDigits 10 (units * 10 ^ (330 : Nat) / one)).length : Int) - 331

/-- The exact decimal value: a unit is `5 ^ 1074 * 10 ^ -1074`. -/
def exact (m : Magnitude) : Decimal := ⟨m.units * 5 ^ (1074 : Nat), -1074⟩

/-- The decimal of fewest digits that reads back as this magnitude.  Seventeen digits suffice; the
exact value stands behind the search so that the result reads back in any case. -/
def shortest (m : Magnitude) : Decimal :=
  if m.units = 0 then ⟨0, 0⟩
  else
    let lead := leadingExponent m.units
    let candidates := (List.range 17).flatMap fun (n : Nat) => decimalsAround m.units (lead - n)
    let found := (candidates.find? fun d => d.round? = some m).getD m.exact
    found.dropZeros (Nat.toDigits 10 found.digits).length

end Magnitude

end Lisplet
