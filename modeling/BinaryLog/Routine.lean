import BinaryLog.Registry

namespace BinaryLog.Routine

/-!
# Simple routines

Ways to read payloads that need no format string.
-/

/-- Reads nothing and always says the same. -/
def constant (text : String) : Routine := fun _ => return text

/-- Reads `length` bytes and shows them in hexadecimal after a label. -/
def hexDump (label : String) (length : Nat) : Routine := fun _ => do
  let bytes ← Decoder.bytes length
  return label ++ " " ++ Numeral.hexBytes bytes

/-- Reads a text that is preceded by its length in one byte. -/
def lengthPrefixed : Routine := fun id => do
  let length ← Decoder.byte
  let bytes ← Decoder.bytes length.toNat
  match Utf8.decode bytes with
  | .ok text => return text
  | .error fault => Decoder.fail (.malformedPayload id (.invalidText fault))

/-- The payload that `lengthPrefixed` reads as `text`, which takes at most 255 bytes. -/
def lengthPrefixedPayload (text : String) : Bytes :=
  let bytes := Utf8.encode text
  UInt8.ofNat bytes.length :: bytes

/-- Reads one byte and shows it with the format id. -/
def singleByte : Routine := fun id => do
  let b ← Decoder.byte
  return s!"fmt{id}:{b.toNat}"

end BinaryLog.Routine
