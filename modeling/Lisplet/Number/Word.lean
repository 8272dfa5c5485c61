import Lisplet.Number.Basic

/-!
# Numbers as 64-bit words

The interchange form of a number: a sign bit, eleven bits of exponent and 52 bits of fraction.
-/

namespace Lisplet.Number

-- Powers are those of the naturals, with exponents marked as naturals, whatever else is in scope.
attribute [local instance (2000)] instPowNat

/-- The bit of the sign. -/
def signBit : Nat := 2 ^ (63 : Nat)

/-- The word of positive infinity. -/
def infinityWord : Nat := 2047 * 2 ^ (52 : Nat)

/-- The word of the undefined number. -/
def undefinedWord : Nat := infinityWord + 2 ^ (51 : Nat)

/-- The number that a word stands for.  All words above infinity stand for the undefined number. -/
def ofWord (word : Nat) : Number :=
  let negative := word / signBit % 2 = 1
  let rest := word % signBit
  let exponent := rest / 2 ^ (52 : Nat)
  let fraction := rest % 2 ^ (52 : Nat)
  if rest = infinityWord then infinite negative
  else if infinityWord < rest then undefined
  else if exponent = 0 then ofUnits negative fraction 1
  else ofUnits negative ((2 ^ (52 : Nat) + fraction) * 2 ^ (exponent - 1)) 1

/-- The word of a magnitude: the bits of the significand below the exponent, which counts from one
where the leading bit of the significand is left out. -/
def magnitudeWord (units : Nat) : Nat :=
  if units < 2 ^ (52 : Nat) then units
  else
    let shift := Magnitude.shiftOf units
    units / 2 ^ shift + shift * 2 ^ (52 : Nat)

/-- The word that stands for a number. -/
def toWord : Number → Nat
  | finite s m => (if s then signBit else 0) + magnitudeWord m.units
  | infinite s => (if s then signBit else 0) + infinityWord
  | undefined => undefinedWord

end Lisplet.Number
