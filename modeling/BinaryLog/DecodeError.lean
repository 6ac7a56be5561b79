import BinaryLog.Argument.Error
import BinaryLog.FormatId
import BinaryLog.Text.Numeral
import BinaryLog.Text.Utf8

namespace BinaryLog

/-!
# Why reading a log fails

One cause per constructor. The main definitions are

* `DecodeError`, with its wording in `DecodeError.message`;
* `HeaderFault` and `PayloadFault`, the details of a malformed header or payload;
* `DecodeError.cause?`, the wording of what lies behind an error, where something does.
-/

/-- What is wrong with an entry's header byte. -/
inductive HeaderFault where
  /-- A message was due and the byte starts something else. -/
  | notMessage (found : UInt8)
  /-- A checkpoint was due and the byte starts something else. -/
  | notCheckpoint (found : UInt8)
  /-- The timestamp delta would take more bytes than a timestamp has. -/
  | wideTimestamp (width : Nat)
deriving DecidableEq

/-- The wording of a header fault. -/
def HeaderFault.message : HeaderFault → String
  | .notMessage found => s!"expected a message header, found 0x{Numeral.hexByte found}"
  | .notCheckpoint found => s!"expected a checkpoint header, found 0x{Numeral.hexByte found}"
  | .wideTimestamp width => s!"timestamp delta width {width} exceeds 8"

/-- What is wrong with a message's payload. -/
inductive PayloadFault where
  /-- A float is announced with a width code other than that of eight bytes. -/
  | floatWidth (code : Nat)
  /-- The text of the payload is not valid. -/
  | invalidText (fault : Utf8.Fault)
  /-- The arguments of the payload do not fit its format. -/
  | unprintable (error : ArgumentError)
deriving DecidableEq

/-- The wording of a payload fault. -/
def PayloadFault.message : PayloadFault → String
  | .floatWidth code => s!"float argument packed with width code {code}"
  | .invalidText fault => s!"invalid UTF-8: {fault.message}"
  | .unprintable error => error.message

/-- Why reading a log fails. -/
inductive DecodeError where
  /-- The bytes end inside a field: `needed` bytes were asked for at `offset`, and `available` were
      there. -/
  | truncated (offset needed available : Nat)
  /-- No routine is registered for a message's format. -/
  | unknownFormat (id : FormatId)
  /-- The sum of the previous timestamp and the delta does not fit in 64 bits. -/
  | timeReversed (previous delta : UInt64)
  /-- An entry starts with a byte that is neither a header nor padding. -/
  | unrecognizedTag (tag : UInt8)
  /-- An entry's header byte makes no sense. -/
  | malformedHeader (fault : HeaderFault)
  /-- A message's payload makes no sense under its format. -/
  | malformedPayload (id : FormatId) (fault : PayloadFault)
  /-- The device that holds the bytes failed. -/
  | device (cause : String)
deriving DecidableEq

namespace DecodeError

/-- The wording of an error. -/
def message : DecodeError → String
  | .truncated offset needed available =>
    s!"truncated stream at byte {offset}: needed {needed} bytes, {available} available"
  | .unknownFormat id => s!"no decoder registered for format id {id}"
  | .timeReversed previous delta =>
    s!"timestamp went backwards: previous={previous}, delta=0x{Numeral.hex delta.toNat}"
  | .unrecognizedTag tag => s!"unrecognized entry tag 0x{Numeral.hexByte tag}"
  | .malformedHeader fault => s!"malformed entry header: {fault.message}"
  | .malformedPayload id fault => s!"malformed payload for format id {id}: {fault.message}"
  | .device _ => "failed to read stream"

/-- The wording of what lies behind an error, where something does. -/
def cause? : DecodeError → Option String
  | .device cause => some cause
  | _ => none

end DecodeError

end BinaryLog
