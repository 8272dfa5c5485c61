import Lisplet.Number.Decimal

/-!
# How numbers are written

A number is written with the digits of `Magnitude.shortest`: positionally while its leading digit
stands between `10 ^ -4` and `10 ^ 15`, otherwise with an exponent of a sign and at least two
digits.

There are two texts.  `Number.text` marks a whole number by `.0`; it is what token lists and syntax
trees show.  `Number.display` leaves that mark out; it is what a program prints.
-/

namespace Lisplet

/-- The parts of a written magnitude. -/
inductive Numeral where
  /-- Digits before and after the point. -/
  | positional (whole fraction : List Char)
  /-- The leading digit, the digits after it, and the power of ten. -/
  | scientific (lead fraction : List Char) (exponent : Int)
deriving DecidableEq

namespace Numeral

/-- The least power of ten that is written positionally when it is the leading digit's. -/
def leastPositional : Int := -4

/-- The first power of ten that is too large to be written positionally. -/
def positionalLimit : Int := 16

/-- Lays a decimal out around the point.  `places` is the number of digits before the point; it is
zero or negative where zeros follow the point. -/
def ofDecimal (d : Decimal) : Numeral :=
  let digits := Nat.toDigits 10 d.digits
  let places : Int := digits.length + d.exponent
  if leastPositional < places ∧ places ≤ positionalLimit then
    if places ≤ 0 then
      positional ['0'] (List.replicate (-places).toNat '0' ++ digits)
    else
      let n := places.toNat
      positional (digits.take n ++ List.replicate (n - digits.length) '0') (digits.drop n)
  else
    scientific (digits.take 1) (digits.drop 1) (places - 1)

/-- An exponent has a sign and at least two digits. -/
def exponentText (e : Int) : List Char :=
  let digits := Nat.toDigits 10 e.natAbs
  (if e < 0 then '-' else '+') :: (List.replicate (2 - digits.length) '0' ++ digits)

/-- A point and the digits after it, where there are any. -/
def fractionText (fraction : List Char) : List Char :=
  if fraction.isEmpty then [] else '.' :: fraction

/-- The numeral as a program prints it. -/
def display : Numeral → List Char
  | positional whole fraction => whole ++ fractionText fraction
  | scientific lead fraction e => lead ++ fractionText fraction ++ 'e' :: exponentText e

/-- The numeral with a `.0` where it is written positionally and is whole. -/
def text : Numeral → List Char
  | positional whole [] => whole ++ ['.', '0']
  | n => n.display

end Numeral

namespace Number

/-- A minus sign, where there is one. -/
def signText (negative : Bool) : List Char := if negative then ['-'] else []

/-- The text of a number in token lists and syntax trees. -/
def text : Number → String
  | finite s m => String.ofList (signText s ++ (Numeral.ofDecimal m.shortest).text)
  | infinite s => String.ofList (signText s ++ "inf".toList)
  | undefined => "nan"

/-- The text of a number in a program's output. -/
def display : Number → String
  | finite s m => String.ofList (signText s ++ (Numeral.ofDecimal m.shortest).display)
  | infinite s => String.ofList (signText s ++ "Infinity".toList)
  | undefined => "NaN"

end Number

end Lisplet
