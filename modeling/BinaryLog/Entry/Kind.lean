import BinaryLog.Decoder

namespace BinaryLog

/-!
# Entry kinds

The two lowest bits of an entry's first byte tell what the entry is: 1 a message, 2 a checkpoint.
Any other byte starts nothing, and among those the zero byte is padding.
-/

/-- What an entry's first byte announces. -/
inductive EntryKind where
  | message
  | checkpoint
  /-- Neither of the two; the byte itself is kept. -/
  | invalid (byte : UInt8)
deriving DecidableEq

namespace EntryKind

/-- The kind that a first byte announces. -/
def ofByte (b : UInt8) : EntryKind :=
  if b.toNat % 4 = 1 then .message
  else if b.toNat % 4 = 2 then .checkpoint
  else .invalid b

/-- Is it padding? -/
def isPadding : EntryKind → Bool
  | .invalid b => b == 0
  | _ => false

/-- The kind of the next entry, or nothing at the end of the stream. No byte is read. -/
def upcoming : Decoder (Option EntryKind) := Option.map ofByte <$> Decoder.peek

/-- What comes up is told by the next byte, which is not read, or by how the stream ends. -/
theorem run_upcoming (s : Source) :
    upcoming.run s = match s.ahead, s.ending with
      | b :: _, _ => (.ok (some (ofByte b)), s)
      | [], .endOfStream => (.ok none, s)
      | [], .fault cause => (.error (.device cause), s) := by
  rw [upcoming, ← bind_pure_comp, Decoder.run_bind, Decoder.peek]
  rcases s with ⟨_ | ⟨b, bs⟩, _, _ | _⟩ <;> rfl

end EntryKind

end BinaryLog
