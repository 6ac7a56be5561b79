import BinaryLog.Binary64.Basic
import BinaryLog.Decoder

namespace BinaryLog

/-!
# Checkpoints

A checkpoint ties the cycle counter to the wall clock and says how many cycles a second has. It
takes 25 bytes: the tag 2 in the two lowest bits of the first byte, then three words of eight bytes.
-/

/-- A calibration point of the log. Its rate is stored as found, whether or not it makes sense. -/
structure Checkpoint where
  cycleCounter : UInt64
  unixTime : UInt64
  /-- Cycles per second. -/
  rate : Binary64
deriving DecidableEq

namespace Checkpoint

/-- The bytes of a checkpoint after the first. -/
def bodyLength : Nat := 24

/-- The bytes of a checkpoint. -/
def length : Nat := 1 + bodyLength

/-- The first byte of a checkpoint as written. -/
def tag : UInt8 := 2

/-- The pieces of a checkpoint: its first byte and its words. -/
def pieces (c : Checkpoint) : List Bytes :=
  [[tag], Word.toBytes 8 c.cycleCounter.toNat, Word.toBytes 8 c.unixTime.toNat,
    Word.toBytes 8 c.rate.bits.toNat]

/-- A checkpoint as written. -/
def encode (c : Checkpoint) : Bytes := c.pieces.flatten

/-- The bytes of a checkpoint behind its tag. -/
theorem encode_eq_cons (c : Checkpoint) :
    c.encode = tag :: (Word.toBytes 8 c.cycleCounter.toNat ++ Word.toBytes 8 c.unixTime.toNat ++
      Word.toBytes 8 c.rate.bits.toNat) := by
  simp [encode, pieces]

/-- The checkpoint whose three words are stored in `body`. -/
def ofBody (body : Bytes) : Checkpoint :=
  let word (i : Nat) : UInt64 := UInt64.ofNat (Word.ofBytes ((body.drop (8 * i)).take 8))
  { cycleCounter := word 0, unixTime := word 1, rate := ⟨word 2⟩ }

/-- Reads a checkpoint. Its upper header bits are free. -/
def decode : Decoder Checkpoint := do
  let first ← Decoder.byte
  if first.toNat % 4 ≠ 2 then Decoder.fail (.malformedHeader (.notCheckpoint first))
  else return ofBody (← Decoder.bytes bodyLength)

/-- Can elapsed time be computed with the rate? -/
def hasUsableRate (c : Checkpoint) : Bool := c.rate.isPositiveFinite

end Checkpoint

end BinaryLog
