import BinaryLog.Binary64.Basic

namespace BinaryLog

/-!
# Rounding to nearest

A result that is not representable becomes the nearest number that is, and of two that are equally
near the one with the even last digit. Every rounding here is one exact division of natural numbers.
The main definitions are

* `roundDiv`, a quotient rounded to a natural number;
* `Binary64.ofRatio`, a quotient rounded to a floating point number;
* `Binary64.ofNat`, `Binary64.ofInt`, `Binary64.mul` and `Binary64.div`, each the exact result
  rounded once.
-/

/-- The quotient `num / den` rounded to the nearest natural number, a half to the even neighbour. -/
def roundDiv (num den : Nat) : Nat :=
  let quotient := num / den
  let twice := 2 * (num % den)
  if twice < den then quotient
  else if den < twice then quotient + 1
  else quotient + quotient % 2

namespace Binary64

/-- The exponent `e` with `2 ^ e ≤ num / den < 2 ^ (e + 1)`, for positive numbers. -/
def binaryExponent (num den : Nat) : Int :=
  let estimate : Int := num.log2 - den.log2
  if den * Nat.pow 2 estimate.toNat ≤ num * Nat.pow 2 (-estimate).toNat then estimate
  else estimate - 1

/-- The least exponent of a significand. -/
def minExponent : Int := -1074

/-- The quotient `num / den` rounded to nearest, for a positive denominator. The significand is
    rounded at the unit that 53 digits leave, but at no smaller unit than the format has. A
    significand that rounds up to the next power of two carries into the exponent by itself, because
    the fields are adjacent. -/
def ofRatio (negative : Bool) (num den : Nat) : Binary64 :=
  if num = 0 then ofMagnitudeBits negative 0
  else
    let unit := max (binaryExponent num den - 52) minExponent
    let significand := roundDiv (num * Nat.pow 2 (-unit).toNat) (den * Nat.pow 2 unit.toNat)
    let magnitude := (unit - minExponent).toNat * exponentWeight + significand
    ofMagnitudeBits negative (min magnitude infinityBits)

/-- The nearest number to a natural number. -/
def ofNat (n : Nat) : Binary64 := ofRatio false n 1

/-- The nearest number to an integer. -/
def ofInt (i : Int) : Binary64 := ofRatio (i < 0) i.natAbs 1

/-! ### Arithmetic -/

/-- The product, rounded to nearest. -/
def mul (x y : Binary64) : Binary64 :=
  let negative := x.negative != y.negative
  if x.isNaN || y.isNaN then nan
  else if x.isInfinite || y.isInfinite then
    if x.isZero || y.isZero then nan else infinity negative
  else ofRatio negative (x.numerator * y.numerator) (x.denominator * y.denominator)

/-- The quotient, rounded to nearest. -/
def div (x y : Binary64) : Binary64 :=
  let negative := x.negative != y.negative
  if x.isNaN || y.isNaN then nan
  else if x.isInfinite then
    if y.isInfinite then nan else infinity negative
  else if y.isInfinite then ofMagnitudeBits negative 0
  else if y.isZero then
    if x.isZero then nan else infinity negative
  else ofRatio negative (x.numerator * y.denominator) (x.denominator * y.numerator)

instance : Mul Binary64 := ⟨mul⟩

instance : Div Binary64 := ⟨div⟩

end Binary64

end BinaryLog
