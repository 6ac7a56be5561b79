import BinaryLog.Binary64.Rounding
import BinaryLog.Text.Numeral

namespace BinaryLog.Binary64

/-!
# Floating point numbers read from text

A number is an optional sign followed by `inf`, `infinity` or `nan` in any case, or by a decimal
numeral: digits with at most one point among or around them, and an optional exponent after `e` or
`E`. The value is rounded once.
-/

/-- The value of decimal digits. -/
def digitsValue (digits : List Char) : Nat := Nat.ofDigitChars 10 digits 0

/-- The exponent that a numeral ends in, zero if nothing is left of it. -/
def exponentOfText? : List Char → Option Int
  | [] => some 0
  | mark :: rest =>
    if mark = 'e' || mark = 'E' then Numeral.readInt? rest else none

/-- The decimal exponents at which every number is far above the largest finite one, or far below
    half the smallest. -/
def decimalLimit : Int := 400

/-- The number `digits * 10 ^ exponent` rounded to nearest, where `length` is the number of digits.
    Powers of ten beyond the limit are not computed. -/
def ofDecimal (negative : Bool) (digits length : Nat) (exponent : Int) : Binary64 :=
  let leading := exponent + length
  if digits = 0 || leading < -decimalLimit then ofMagnitudeBits negative 0
  else if decimalLimit + length < leading then infinity negative
  else ofRatio negative (digits * Nat.pow 10 exponent.toNat) (Nat.pow 10 (-exponent).toNat)

/-- The number that a numeral without a sign stands for. -/
def ofNumeral? (negative : Bool) (text : List Char) : Option Binary64 :=
  let whole := text.takeWhile Char.isDigit
  let rest := text.dropWhile Char.isDigit
  let (part, rest) :=
    match rest with
    | '.' :: rest => (rest.takeWhile Char.isDigit, rest.dropWhile Char.isDigit)
    | _ => ([], rest)
  let digits := whole ++ part
  if digits.isEmpty then none
  else (exponentOfText? rest).map fun exponent =>
    ofDecimal negative (digitsValue digits) digits.length (exponent - part.length)

/-- The number that a text stands for. -/
def ofText? (text : String) : Option Binary64 :=
  let (negative, rest) := Numeral.splitSign text.toList
  let word := String.ofList (rest.map Char.toLower)
  if word = "inf" || word = "infinity" then some (infinity negative)
  else if word = "nan" then
    some (if negative then ofMagnitudeBits true nan.magnitudeBits else nan)
  else ofNumeral? negative rest

end BinaryLog.Binary64
