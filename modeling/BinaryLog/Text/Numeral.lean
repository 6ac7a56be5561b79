import BinaryLog.Word

namespace BinaryLog.Numeral

/-!
# Numerals

Natural numbers as text in base 8, 10 or 16, without leading zeros unless a least length asks for
them, and integers in decimal, written and read.
-/

/-- The numeral of `n` in lower case. -/
def chars (base n : Nat) : List Char := Nat.toDigits base n

/-- The numeral of `n` in upper case. -/
def upperChars (base n : Nat) : List Char := (chars base n).map Char.toUpper

/-- A numeral with zeros in front up to a least length. -/
def extend (least : Nat) (numeral : List Char) : List Char := numeral.leftpad least '0'

/-- The decimal numeral of `n`. -/
def decimal (n : Nat) : String := String.ofList (chars 10 n)

/-- The hexadecimal numeral of `n`. -/
def hex (n : Nat) : String := String.ofList (chars 16 n)

/-! ### Integers -/

/-- The decimal numeral of an integer, with a minus sign if it is negative. -/
def ofInt (i : Int) : List Char := (if i < 0 then ['-'] else []) ++ chars 10 i.natAbs

/-- A sign, which may be left out, and what follows it. -/
def splitSign : List Char → Bool × List Char
  | '-' :: rest => (true, rest)
  | '+' :: rest => (false, rest)
  | rest => (false, rest)

/-- The integer that a text spells in decimal, behind a sign perhaps. -/
def readInt? (text : List Char) : Option Int :=
  let (negative, digits) := splitSign text
  if digits.isEmpty || !digits.all Char.isDigit then none
  else
    let magnitude := Nat.ofDigitChars 10 digits 0
    some (if negative then -magnitude else magnitude)

/-- The integer that a text spells in decimal, if it is one of 32 bits. -/
def readInt32? (text : List Char) : Option Int :=
  (readInt? text).filter fun i => -0x80000000 ≤ i && i < 0x80000000

/-! ### Bytes -/

/-- A byte as two hexadecimal digits. -/
def hexByte (b : UInt8) : String := String.ofList (extend 2 (chars 16 b.toNat))

/-- Bytes as two hexadecimal digits each. -/
def hexBytes (bytes : Bytes) : String := String.join (bytes.map hexByte)

end BinaryLog.Numeral
