import BinaryLog.Entry.Checkpoint
import BinaryLog.Entry.Header

namespace BinaryLog

/-!
# Composing streams by hand

A builder appends entries without a check, so it can also make streams that no writer would:
messages by their deltas, and bytes that are no entry at all.
-/

/-- A stream being composed, and the chain that its next message continues from. -/
structure Builder where
  bytes : Bytes := []
  chain : Chain := {}
deriving DecidableEq

namespace Builder

/-- Appends bytes as they are. -/
def raw (b : Builder) (bytes : Bytes) : Builder := { b with bytes := b.bytes ++ bytes }

/-- Appends a message by its deltas. The chain wraps around. -/
def rawMessage (b : Builder) (idDelta : UInt32) (timeDelta : UInt64) (payload : Bytes) : Builder :=
  { bytes := b.bytes ++ Header.encode idDelta timeDelta ++ payload
    chain := b.chain.step idDelta timeDelta }

/-- Appends a message that is no older than the one before it. -/
def message (b : Builder) (id : FormatId) (timestamp : UInt64) (payload : Bytes) : Builder :=
  b.rawMessage (b.chain.formatId.deltaTo id) (timestamp - b.chain.timestamp) payload

/-- The wall clock of every checkpoint that a builder makes. -/
def unixTime : UInt64 := 1700000000

/-- Appends a checkpoint taken at the time of the last message. -/
def checkpoint (b : Builder) (rate : Binary64) : Builder :=
  b.raw { cycleCounter := b.chain.timestamp, unixTime, rate : Checkpoint }.encode

/-- Appends zero bytes. -/
def padding (b : Builder) (length : Nat) : Builder := b.raw (List.replicate length 0)

/-- The number of bytes so far. -/
def length (b : Builder) : Nat := b.bytes.length

/-- Is there no byte yet? -/
def isEmpty (b : Builder) : Bool := b.bytes.isEmpty

end Builder

end BinaryLog
