import BinaryLog.Entry.Checkpoint
import BinaryLog.Entry.Header
import BinaryLog.Entry.Kind
import BinaryLog.Registry

namespace BinaryLog

/-!
# Entries

A log is a sequence of entries, one after the other without anything between them. A message is read
with the registry, because only its format tells how long its payload is.
-/

/-- One entry of a log, as read. -/
inductive Entry where
  /-- A message, with the text that its payload stands for. -/
  | message (metadata : Metadata) (text : String)
  | checkpoint (c : Checkpoint)
  /-- A longest run of zero bytes. -/
  | padding (length : Nat)
deriving DecidableEq

namespace Entry

/-- Reads an entry of the given kind, where `chain` is what a message continues from. A byte that
    starts nothing is left unread. -/
def decode (registry : Registry) (chain : Chain) : EntryKind → Decoder Entry
  | .message => do
    let metadata ← Metadata.decode chain
    let text ← registry.decode metadata.formatId
    return .message metadata text
  | .checkpoint => Entry.checkpoint <$> Checkpoint.decode
  | .invalid b =>
    if b = 0 then Entry.padding <$> Decoder.zeros
    else Decoder.fail (.unrecognizedTag b)

end Entry

end BinaryLog
