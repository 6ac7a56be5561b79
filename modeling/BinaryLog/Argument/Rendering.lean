import BinaryLog.Argument.Basic
import BinaryLog.Argument.Field
import BinaryLog.Binary64.Decimal
import BinaryLog.Text.Utf8

namespace BinaryLog

/-!
# Arguments as text

Each conversion turns an argument into a field, following the conventions of formatted output in C.
The main definitions are

* `Directive.signedField`, `Directive.unsignedField` and `Directive.pointerField` for integers;
* `Directive.floatField` for floating point numbers;
* `Directive.charField` and `Directive.textField` for characters and text;
* `Directive.write`, the text of any argument, and `Template.write`, the text of a message.
-/

/-! ### Integers -/

/-- The digits of a number with at least as many as the precision says. Zero has none under
    precision zero. -/
def extendDigits (digits : List Char) (precision : Option Nat) : List Char :=
  match precision with
  | none => digits
  | some 0 => if digits = ['0'] then [] else digits
  | some least => Numeral.extend least digits

/-- The sign of a number under the flags. -/
def Flags.sign (flags : Flags) (negative : Bool) : List Char :=
  if negative then ['-']
  else if flags.forceSign then ['+']
  else if flags.spaceSign then [' ']
  else []

namespace Directive

/-- The integer of the directive's length that the lowest bits stand for in two's complement. -/
def signedValue (d : Directive) (bits : UInt64) : Int :=
  (bits.toBitVec.setWidth d.length.bits).toInt

/-- The integer of the directive's length that the lowest bits stand for. -/
def unsignedValue (d : Directive) (bits : UInt64) : Nat :=
  (bits.toBitVec.setWidth d.length.bits).toNat

/-- A signed decimal number. A precision keeps zeros from filling the field. -/
def signedField (d : Directive) (bits : UInt64) : Field :=
  let value := d.signedValue bits
  { lead := d.flags.sign (value < 0)
    body := extendDigits (Numeral.chars 10 value.natAbs) d.precision
    takesZeros := d.precision.isNone }

/-- An octal number, which the alternate form begins with a zero. -/
def octalDigits (d : Directive) (value : Nat) : List Char :=
  let digits := extendDigits (Numeral.chars 8 value) d.precision
  if d.flags.alternate && digits.head? != some '0' then '0' :: digits else digits

/-- An unsigned number in the base of the conversion. The alternate form of a hexadecimal number
    other than zero is marked by `0x` in the case of its digits. -/
def unsignedField (d : Directive) (bits : UInt64) : Field :=
  let value := d.unsignedValue bits
  let takesZeros := d.precision.isNone
  match d.conversion with
  | .octal => { body := d.octalDigits value, takesZeros }
  | .hex upper =>
    { lead := if d.flags.alternate && value != 0 then ['0', if upper then 'X' else 'x'] else []
      body :=
        extendDigits (if upper then Numeral.upperChars 16 value else Numeral.chars 16 value)
          d.precision
      takesZeros }
  | _ => { body := extendDigits (Numeral.chars 10 value) d.precision, takesZeros }

/-- A pointer, marked as hexadecimal. The null pointer has a name instead. -/
def pointerField (d : Directive) (bits : UInt64) : Field :=
  if bits = 0 then { body := "(nil)".toList }
  else
    { lead := ['0', 'x'], body := extendDigits (Numeral.chars 16 bits.toNat) d.precision
      takesZeros := d.precision.isNone }

/-! ### Floating point numbers -/

/-- The point that the alternate form keeps where no digit follows it. -/
def barePoint (d : Directive) (places : Nat) : List Char :=
  if d.flags.alternate && places == 0 then ['.'] else []

/-- A magnitude with digits after the point. -/
def fixedBody (d : Directive) (x : Binary64) (places : Nat) : List Char :=
  x.fixed places ++ d.barePoint places

/-- A magnitude with one digit before the point and a power of ten of at least two digits. The
    exponent is read from the text of the scientific notation; it would be zero if it could not be
    read. -/
def exponentialBody (d : Directive) (x : Binary64) (places : Nat) : List Char :=
  let text := x.scientificText places
  let (mantissa, power) := (Decimal.splitExponent? text).getD (text, ['0'])
  let exponent := (Numeral.readInt32? power).getD 0
  mantissa ++ d.barePoint places ++
    'e' :: (if exponent < 0 then '-' else '+') ::
      Numeral.extend 2 (Numeral.chars 10 exponent.natAbs)

/-- The exponent of a magnitude that is rounded to `places` digits behind the first, read from its
    text in the same way. -/
def decimalExponent (x : Binary64) (places : Nat) : Int :=
  let exponent? := do
    let (_, power) ← Decimal.splitExponent? (x.scientificText places)
    Numeral.readInt32? power
  exponent?.getD 0

/-- The precision where none is given. -/
def defaultPrecision : Nat := 6

/-- A decimal notation, with an exponent perhaps, without the zeros that end its fraction. -/
def trimZeros (text : List Char) : List Char :=
  Decimal.trimFraction (text.takeWhile (· != 'e')) ++ text.dropWhile (· != 'e')

/-- A magnitude in the shorter of the two notations. The precision counts significant digits, and
    the exponent that decides is that of the number rounded to them. Zeros at the end of the
    fraction go unless the alternate form keeps them. -/
def generalBody (d : Directive) (x : Binary64) (precision : Nat) : List Char :=
  let significant := max precision 1
  let exponent := decimalExponent x (significant - 1)
  let body :=
    if -4 ≤ exponent && exponent < significant then
      d.fixedBody x (significant - 1 - exponent).toNat
    else d.exponentialBody x (significant - 1)
  if d.flags.alternate then body else trimZeros body

/-- A finite magnitude in the notation of the conversion, in lower case. -/
def floatBody (d : Directive) (x : Binary64) : List Char :=
  let precision := d.precision.getD defaultPrecision
  match d.conversion with
  | .exponential _ => d.exponentialBody x precision
  | .general _ => d.generalBody x precision
  | _ => d.fixedBody x precision

/-- Does the conversion write letters in upper case? -/
def isUpper (d : Directive) : Bool :=
  match d.conversion with
  | .fixed upper | .exponential upper | .general upper => upper
  | _ => false

/-- A floating point number. Only a finite one takes zeros; the sign of a NaN is shown too. -/
def floatField (d : Directive) (x : Binary64) : Field :=
  let body :=
    if x.isNaN then "nan".toList
    else if x.isInfinite then "inf".toList
    else d.floatBody x
  { lead := d.flags.sign x.negative
    body := if d.isUpper then body.map Char.toUpper else body
    takesZeros := x.isFinite }

/-! ### Characters and text -/

/-- The last place at or before byte `index` where a character of a text begins or the text ends,
    searched backwards. The first byte is such a place in every text. -/
def boundaryBefore (text : String) : (index : Nat) → text.Pos
  | 0 => text.startPos
  | index + 1 =>
    if h : (⟨index + 1⟩ : String.Pos.Raw).IsValid text then ⟨⟨index + 1⟩, h⟩
    else boundaryBefore text index

/-- A text cut down to at most `limit` bytes, between two characters. -/
def takeBytes (limit : Nat) (text : String) : String :=
  if limit < text.utf8ByteSize then (text.sliceTo (boundaryBefore text limit)).copy else text

/-- The lowest byte of an integer as a character; above ASCII it is none. -/
def charField (bits : UInt64) : Field :=
  { body := (Utf8.decodeLossy [bits.toUInt8]).toList }

/-- A text, of which the precision says the most bytes. -/
def textField (d : Directive) (text : String) : Field :=
  match d.precision with
  | some limit => { body := (takeBytes limit text).toList }
  | none => { body := text.toList }

/-! ### Any argument -/

/-- The field that an argument becomes. The kind of the argument is not looked at: an integer stands
    for a number of any kind and a number for an empty text. -/
def field (d : Directive) (a : Argument) : Field :=
  match d.argKind with
  | .signed => d.signedField a.bits
  | .unsigned => d.unsignedField a.bits
  | .char => charField a.bits
  | .pointer => d.pointerField a.bits
  | .float => d.floatField a.toFloat
  | .text => d.textField a.toText

/-- The text that an argument becomes. -/
def write (d : Directive) (a : Argument) : String :=
  String.ofList ((d.field a).fill d.flags (d.width.getD 0))

end Directive

/-- The text of pieces whose directives stand for the arguments in turn. -/
def Piece.writeAll : List Piece → List Argument → String
  | [], _ => ""
  | .literal text :: pieces, args => text ++ writeAll pieces args
  | .directive d :: pieces, a :: args => d.write a ++ writeAll pieces args
  | .directive _ :: pieces, [] => writeAll pieces []

/-- The text of a message with these arguments. -/
def Template.write (t : Template) (args : List Argument) : Except ArgumentError String := do
  t.check args
  return Piece.writeAll t.pieces args

end BinaryLog
