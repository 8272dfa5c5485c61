import Lisplet.Number.Basic

/-!
# Arithmetic on numbers

Each operation is the exact one on finite numbers, rounded once by `Number.ofUnits`.  An exact
result of zero has the sign that the operation gives it: a product or quotient the product of the
signs, a sum minus only when both terms have it.  `Number.rem` needs no rounding: the remainder of
two counts of units is itself such a count.
-/

namespace Lisplet.Number

/-- The same number with the other sign. -/
def neg : Number → Number
  | finite s m => finite (!s) m
  | infinite s => infinite (!s)
  | undefined => undefined

/-- A finite number as a signed count of units. -/
def signedUnits (negative : Bool) (m : Magnitude) : Int :=
  if negative then -m.units else m.units

/-- The sum.  Infinities of opposite signs have none. -/
def add : Number → Number → Number
  | finite s a, finite t b =>
    let sum := signedUnits s a + signedUnits t b
    if sum = 0 then finite (s && t) .zero else ofUnits (sum < 0) sum.natAbs 1
  | infinite s, infinite t => if s = t then infinite s else undefined
  | infinite s, finite _ _ => infinite s
  | finite _ _, infinite t => infinite t
  | _, _ => undefined

/-- The sum with the second number negated. -/
def sub (a b : Number) : Number := a.add b.neg

/-- The product.  Zero and an infinity have none. -/
def mul : Number → Number → Number
  | finite s a, finite t b => ofUnits (s != t) (a.units * b.units) Magnitude.one
  | infinite s, infinite t => infinite (s != t)
  | infinite s, finite t m => if m.units = 0 then undefined else infinite (s != t)
  | finite s m, infinite t => if m.units = 0 then undefined else infinite (s != t)
  | _, _ => undefined

/-- The quotient.  A zero divisor gives an infinity, but for zero itself, which has no quotient. -/
def div : Number → Number → Number
  | finite s a, finite t b =>
    if b.units = 0 then (if a.units = 0 then undefined else infinite (s != t))
    else ofUnits (s != t) (a.units * Magnitude.one) b.units
  | infinite s, finite t _ => infinite (s != t)
  | finite s _, infinite t => finite (s != t) .zero
  | _, _ => undefined

/-- The remainder of a division toward zero, with the sign of the first number.  It is undefined for
a zero divisor and for an infinite first number; an infinite divisor leaves the first number alone.
-/
def rem : Number → Number → Number
  | finite s a, finite _ b =>
    if b.units = 0 then undefined else ofUnits s (a.units % b.units) 1
  | finite s a, infinite _ => finite s a
  | _, _ => undefined

/-- The largest whole number not above this one.  A result of zero has no sign, and a number that is
not finite stays as it is. -/
def floor : Number → Number
  | finite false a => ofNat false (a.units / Magnitude.one)
  | finite true a =>
    let whole := (a.units + (Magnitude.one - 1)) / Magnitude.one
    ofNat (whole != 0) whole
  | x => x

end Lisplet.Number
