import BinaryLog.Binary64.Rounding
import BinaryLog.Text.Numeral

namespace BinaryLog

/-!
# Decimal text of floating point numbers

A magnitude is written with a fixed number of digits, either all after the point (`fixed`) or all
after the first significant digit (`scientific`). The exact value is rounded once, a half to the
even neighbour. The main definitions are

* `Decimal.pointed`, a natural number with a point before its last digits;
* `Binary64.fixed` and `Binary64.scientific`, the two notations of a magnitude;
* `Binary64.scientificText`, the text of the second one, and `Decimal.splitExponent?`, which takes
  the text apart;
* `Binary64.toFixed`, the fixed notation of a number of either sign, infinities and NaN included.
-/

namespace Decimal

/-- The decimal notation of `n / 10 ^ places`, with just that many digits after the point and no
    point if there are none. -/
def pointed (n places : Nat) : List Char :=
  let whole := Numeral.chars 10 (n / Nat.pow 10 places)
  if places = 0 then whole
  else whole ++ '.' :: Numeral.extend places (Numeral.chars 10 (n % Nat.pow 10 places))

/-- The number of digits of the decimal numeral. -/
def digitCount (n : Nat) : Nat := (Numeral.chars 10 n).length

/-- The exponent `e` with `10 ^ e ≤ num / den < 10 ^ (e + 1)`, for positive numbers. Above one it is
    told by the digits of the whole part. Below one, multiplying by the power of ten that evens out
    the lengths of the two numerals leaves at most one more factor of ten. -/
def exponent (num den : Nat) : Int :=
  if den ≤ num then (digitCount (num / den) : Int) - 1
  else
    let even := digitCount den - digitCount num
    if den ≤ num * Nat.pow 10 even then -even else -(even + 1)

/-- A number in scientific notation: `digits / 10 ^ places * 10 ^ exponent`. -/
structure Scientific where
  digits : Nat
  exponent : Int

/-- The text of a scientific notation: its digits with a point behind the first one, and its
    exponent behind the letter `e`. -/
def Scientific.text (s : Scientific) (places : Nat) : List Char :=
  pointed s.digits places ++ 'e' :: Numeral.ofInt s.exponent

/-- What a text has before and behind its first `e`, if it has one. -/
def splitExponent? (text : List Char) : Option (List Char × List Char) :=
  match text.dropWhile (· != 'e') with
  | _ :: exponent => some (text.takeWhile (· != 'e'), exponent)
  | [] => none

/-- The quotient `num / den` rounded to `places + 1` significant digits. Rounding up to a power of
    ten moves the point. -/
def scientific (num den places : Nat) : Scientific :=
  if num = 0 then { digits := 0, exponent := 0 }
  else
    let e := exponent num den
    let shift : Int := places - e
    let digits := roundDiv (num * Nat.pow 10 shift.toNat) (den * Nat.pow 10 (-shift).toNat)
    if digits = Nat.pow 10 (places + 1) then { digits := Nat.pow 10 places, exponent := e + 1 }
    else { digits, exponent := e }

/-- A decimal notation without the zeros that end its fraction, and without a point that nothing
    follows. -/
def trimFraction (text : List Char) : List Char :=
  if '.' ∈ text then
    let kept := text.reverse.dropWhile (· == '0')
    (match kept with
      | '.' :: whole => whole
      | _ => kept).reverse
  else text

end Decimal

namespace Binary64

/-- The magnitude with `places` digits after the point. -/
def fixed (x : Binary64) (places : Nat) : List Char :=
  Decimal.pointed (roundDiv (x.numerator * Nat.pow 10 places) x.denominator) places

/-- The magnitude in scientific notation with `places` digits after the first. -/
def scientific (x : Binary64) (places : Nat) : Decimal.Scientific :=
  Decimal.scientific x.numerator x.denominator places

/-- The text of the magnitude in scientific notation. -/
def scientificText (x : Binary64) (places : Nat) : List Char := (x.scientific places).text places

/-- The sign of a number as text; both zeros have one. -/
def signText (x : Binary64) : List Char := if x.negative then ['-'] else []

/-- The text of a number whose magnitude, if finite, is written as given. NaN has no sign. -/
def signed (x : Binary64) (magnitude : List Char) : List Char :=
  if x.isNaN then "NaN".toList
  else x.signText ++ if x.isInfinite then "inf".toList else magnitude

/-- The number with `places` digits after the point. -/
def toFixed (x : Binary64) (places : Nat) : String := String.ofList (x.signed (x.fixed places))

end Binary64

end BinaryLog
