import BinaryLog.Argument.Basic
import BinaryLog.Decoder

namespace BinaryLog

/-!
# Packed arguments

A payload holds the arguments of a message in three sections: the width codes of all numbers, two to
a byte with the first in the lower half; the numbers in as few bytes as they need; and the texts,
each ended by a NUL. Up to 8 a width code is a number of bytes; above, it is 8 more than the bytes
of the magnitude of a negative number. Floats always take 8 bytes. The main definitions are

* `Template.pack` and `Template.unpack`, the arguments of a template written and read;
* `Argument.packed?`, one number with its width code, and `readNumber`, the way back;
* `pairCodes` and `splitCodes`, width codes in bytes.
-/

/-! ### Width codes -/

/-- Width codes two to a byte, the first in the lower half. -/
def pairCodes : List Nat → Bytes
  | [] => []
  | [low] => [UInt8.ofNat low]
  | low :: high :: codes => UInt8.ofNat (low + 16 * high) :: pairCodes codes

/-- The width codes in bytes. -/
def splitCodes (bytes : Bytes) : List Nat :=
  bytes.flatMap fun b => [b.toNat % 16, b.toNat / 16]

/-- The code of eight bytes, above which magnitudes of negative numbers are meant. -/
def fullWidth : Nat := 8

/-! ### Writing -/

/-- A number as stored: its width code and its bytes. -/
structure Packed where
  code : Nat
  bytes : Bytes
deriving DecidableEq

/-- The `width` lowest bytes of a number under a code. -/
def Packed.of (code width value : Nat) : Packed := { code, bytes := Word.toBytes width value }

/-- A number without a sign in as few bytes as it needs. -/
def Packed.ofNat (value : Nat) : Packed := .of (Word.width value) (Word.width value) value

/-- How an argument that is no text is stored. A negative number is stored by its magnitude if that
    is shorter than the number itself. -/
def Argument.packed? : Argument → Option Packed
  | .float value => some (.of fullWidth 8 value.bits.toNat)
  | .uint value => some (.ofNat value.toNat)
  | .int value =>
    let magnitude := value.toInt.natAbs
    let width := Word.width magnitude
    if value.toInt < 0 then
      some (if width < 8 then .of (fullWidth + width) width magnitude
        else .of fullWidth 8 value.toUInt64.toNat)
    else some (.ofNat magnitude)
  | .text _ => none

/-- The bytes of an argument that is a text, the NUL at its end included. -/
def Argument.textBytes : Argument → Bytes
  | .text value => Utf8.encode value ++ [0]
  | _ => []

/-- Does the argument hold a NUL, which would end it early? -/
def Argument.hasNul : Argument → Bool
  | .text value => value.toList.contains '\x00'
  | _ => false

/-- The payload of a message with these arguments. -/
def Template.pack (t : Template) (args : List Argument) : Except ArgumentError Bytes := do
  t.check args
  match args.zipIdx.find? fun (a, _) => a.hasNul with
  | some (_, index) => .error (.interiorNul index)
  | none =>
    let numbers := args.filterMap Argument.packed?
    .ok (pairCodes (numbers.map Packed.code) ++ numbers.flatMap Packed.bytes
      ++ args.flatMap Argument.textBytes)

/-! ### Reading -/

/-- Reads the number of the given kind whose width code is `code`. -/
def readNumber (id : FormatId) (kind : ArgKind) (code : Nat) : Decoder Argument :=
  match kind with
  | .float =>
    if code = fullWidth then return .float ⟨← Decoder.word 8⟩
    else Decoder.fail (.malformedPayload id (.floatWidth code))
  | _ => do
    let bits ←
      if code ≤ fullWidth then Decoder.word code
      else (fun magnitude => 0 - magnitude) <$> Decoder.word (code - fullWidth)
    return if kind = .signed then .int bits.toInt64 else .uint bits

/-- Reads the numbers of the given kinds, whose width codes are `codes`. -/
def readNumbers (id : FormatId) : List ArgKind → List Nat → Decoder (List Argument)
  | kind :: kinds, code :: codes => do
    let number ← readNumber id kind code
    return number :: (← readNumbers id kinds codes)
  | _, _ => return []

/-- Reads the texts among arguments of the given kinds and puts the numbers, which are read already,
    between them. -/
def readTexts : List ArgKind → List Argument → Decoder (List Argument)
  | [], _ => return []
  | .text :: kinds, numbers => do
    let bytes ← Decoder.untilZero
    return .text (Utf8.decodeLossy bytes) :: (← readTexts kinds numbers)
  | _ :: kinds, numbers =>
    return numbers.take 1 ++ (← readTexts kinds (numbers.drop 1))

/-- Reads the arguments of a message, which stands under the format `id`. -/
def Template.unpack (t : Template) (id : FormatId) : Decoder (List Argument) := do
  let codes ← Decoder.bytes ((t.nonTextCount + 1) / 2)
  let numbers ← readNumbers id (t.argKinds.filter (· != .text)) (splitCodes codes)
  readTexts t.argKinds numbers

end BinaryLog
