namespace BinaryLog

/-!
# Binary floating point numbers of 64 bits

A number is its bit pattern: from the top a sign bit, 11 bits of exponent and 52 bits of fraction.
Patterns are kept as they are, so the payload of a NaN survives being stored and read. The main
definitions are

* `Binary64`, with `negative`, `isFinite`, `isNaN` and the other classes of patterns;
* `significand` and `exponent`, such that a finite number has the magnitude `significand * 2 ^
  exponent`;
* `numerator` and `denominator`, the magnitude as a quotient of natural numbers.
-/

/-- A floating point number, as its bits. -/
structure Binary64 where
  bits : UInt64
deriving DecidableEq, Inhabited

namespace Binary64

/-! ### Classes of bit patterns -/

/-- The weight of the sign bit, `2 ^ 63`. -/
def signWeight : Nat := 0x8000000000000000

/-- The weight of the lowest exponent bit, `2 ^ 52`, which fractions stay below. -/
def exponentWeight : Nat := 0x10000000000000

/-- The bits below the sign. -/
def magnitudeBits (x : Binary64) : Nat := x.bits.toNat % signWeight

/-- Is the sign bit set? -/
def negative (x : Binary64) : Bool := signWeight ≤ x.bits.toNat

/-- The biased exponent. -/
def exponentField (x : Binary64) : Nat := x.magnitudeBits / exponentWeight

/-- The fraction. -/
def fraction (x : Binary64) : Nat := x.magnitudeBits % exponentWeight

/-- The magnitude bits of the infinities. -/
def infinityBits : Nat := 2047 * exponentWeight

/-- Is it neither an infinity nor a NaN? -/
def isFinite (x : Binary64) : Bool := x.magnitudeBits < infinityBits

/-- Is it one of the two infinities? -/
def isInfinite (x : Binary64) : Bool := x.magnitudeBits == infinityBits

/-- Is it no number? -/
def isNaN (x : Binary64) : Bool := infinityBits < x.magnitudeBits

theorem isFinite_iff (x : Binary64) :
    x.isFinite = true ↔ x.isNaN = false ∧ x.isInfinite = false := by
  simp only [isFinite, isNaN, isInfinite, decide_eq_true_iff, decide_eq_false_iff_not,
    beq_eq_false_iff_ne]
  omega

/-- Is it one of the two zeros? -/
def isZero (x : Binary64) : Bool := x.magnitudeBits == 0

/-- Is it finite and above zero? -/
def isPositiveFinite (x : Binary64) : Bool := x.isFinite && !x.isZero && !x.negative

/-! ### Values -/

/-- The whole number that the fraction and the hidden bit make. Numbers with the lowest biased
    exponent have no hidden bit. -/
def significand (x : Binary64) : Nat :=
  if x.exponentField = 0 then x.fraction else exponentWeight + x.fraction

/-- The power of two that the significand is multiplied by. -/
def exponent (x : Binary64) : Int := max x.exponentField 1 - 1075

/-- The magnitude of a finite number is `numerator / denominator`. -/
def numerator (x : Binary64) : Nat := x.significand * Nat.pow 2 x.exponent.toNat

/-- The magnitude of a finite number is `numerator / denominator`. -/
def denominator (x : Binary64) : Nat := Nat.pow 2 (-x.exponent).toNat

/-! ### Building numbers -/

/-- The number with these magnitude bits and this sign. -/
def ofMagnitudeBits (negative : Bool) (magnitude : Nat) : Binary64 :=
  ⟨UInt64.ofNat (if negative then signWeight + magnitude else magnitude)⟩

/-- Zero without a sign. -/
def zero : Binary64 := ⟨0⟩

/-- The infinity of a sign. -/
def infinity (negative : Bool) : Binary64 := ofMagnitudeBits negative infinityBits

/-- The NaN that stands for an undefined result. -/
def nan : Binary64 := ofMagnitudeBits false (infinityBits + exponentWeight / 2)

end Binary64

end BinaryLog
