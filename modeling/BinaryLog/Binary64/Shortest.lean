import BinaryLog.Binary64.Decimal

namespace BinaryLog.Binary64

/-!
# Shortest decimal text

The shortest decimal notation that reads back as the same number. The reals that round to a number
form an interval, whose ends belong to it if the significand is even. On the decimal grids of one,
two, three and more significant digits the two grid points around the number are tried in turn: the
first grid that has one of them inside the interval gives the digits, and of two the nearer one is
taken, the upper one at the same distance.

Distances are counted in quarters of the number's last binary place, where the number and both ends
are whole.
-/

/-- The number, the lower end of its interval and the upper end, in quarters of its last binary
    place. Below a power of two the neighbour is only half as far away. -/
def roundingInterval (x : Binary64) : Nat × Nat × Nat :=
  let value := 4 * x.significand
  let below := if x.significand = exponentWeight && 1 < x.exponentField then 1 else 2
  (value, value - below, value + 2)

/-- Does a decimal number round to `x`? It is `num / den` quarters of the last binary place. -/
def roundsTo (x : Binary64) (num den : Nat) : Bool :=
  let (_, low, high) := x.roundingInterval
  if x.significand % 2 = 0 then low * den ≤ num && num ≤ high * den
  else low * den < num && num < high * den

/-- The most significant digits that are ever needed. -/
def maxDigits : Nat := 17

/-- The decimal number with `digits + 1` significant digits that stands for `x`, if one does, as a
    whole number and the power of ten it is multiplied by. -/
def candidate? (x : Binary64) (digits : Nat) : Option (Nat × Int) :=
  let unit := Decimal.exponent x.numerator x.denominator - digits
  -- One unit of the grid is `scale / quarter` quarters.
  let scale := 4 * Nat.pow 10 unit.toNat * Nat.pow 2 (-x.exponent).toNat
  let quarter := Nat.pow 10 (-unit).toNat * Nat.pow 2 x.exponent.toNat
  let (value, _, _) := x.roundingInterval
  let lower := value * quarter / scale
  let upper := lower + 1
  let lowerFits := x.roundsTo (lower * scale) quarter
  let upperFits := x.roundsTo (upper * scale) quarter
  if lowerFits && upperFits then
    let lowerIsNearer := value * quarter - lower * scale < upper * scale - value * quarter
    some (if lowerIsNearer then lower else upper, unit)
  else if lowerFits then some (lower, unit)
  else if upperFits then some (upper, unit)
  else none

/-- The shortest decimal number that stands for a positive finite `x`, as a whole number and the
    power of ten it is multiplied by. -/
def shortest (x : Binary64) : Nat × Int :=
  ((List.range maxDigits).findSome? x.candidate?).getD (0, 0)

/-- The shortest text of a magnitude, without an exponent however long that makes it. -/
def shortestMagnitude (x : Binary64) : List Char :=
  if x.isZero then ['0']
  else
    let (digits, unit) := x.shortest
    if 0 ≤ unit then Numeral.chars 10 (digits * Nat.pow 10 unit.toNat)
    else Decimal.trimFraction (Decimal.pointed digits (-unit).toNat)

/-- The shortest text of a number, without an exponent however long that makes it. -/
def toShortest (x : Binary64) : String := String.ofList (x.signed x.shortestMagnitude)

end BinaryLog.Binary64
